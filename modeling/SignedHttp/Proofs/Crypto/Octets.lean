import SignedHttp.Crypto.Octets
import SignedHttp.Proofs.Text.Hex

/-!
# Octets in Hexadecimal

A byte sequence of a fixed length is written with twice as many digits, and read back
from them. No digit is a delimiter of a header.

## Theorems

* `length_toHex`: Two digits for each byte.
* `isHex_toHex`, `colon_not_mem_toHex`: What is written are digits, and a colon is none.
* `ofHex?_toHex`: Reading undoes writing.
* `ofHex?_eq_some_iff`: What is read.
-/

namespace SignedHttp

namespace Octets

variable {n : Nat}

/-- The length of the text tells how many octets were written, and nothing else about them. -/
theorem length_toHex (o : Octets n) : o.toHex.length = 2 * n := by
  rw [toHex, Hex.length_encode, o.length_eq]

theorem isHex_toHex (o : Octets n) : Hex.isHex o.toHex = true := Hex.isHex_encode o.bytes

/-- A colon is no digit, so a value between colons ends where it was made to end. -/
theorem colon_not_mem_toHex (o : Octets n) : Ascii.colon ∉ o.toHex := fun hmem =>
  absurd (List.all_eq_true.1 (isHex_toHex o) Ascii.colon hmem) (by decide)

/-- Octets that are written are read back: the length of the text is the one that is asked for. -/
theorem ofHex?_toHex (o : Octets n) : ofHex? n o.toHex = some o := by
  rw [ofHex?, if_pos (length_toHex o), toHex, Hex.decode_encode, Option.bind_some, ofBytes?,
    dif_pos o.length_eq]

/-- A text stands for octets if it has two digits for each of them. -/
theorem ofHex?_eq_some_iff {text : Bytes} {o : Octets n} :
    ofHex? n text = some o ↔ text.length = 2 * n ∧ Hex.decode text = some o.bytes := by
  rw [ofHex?, Option.ite_none_right_eq_some, Option.bind_eq_some_iff]
  refine and_congr_right fun _ => ?_
  -- The octets carry the proof of their length, so only their bytes are left to compare.
  constructor
  · rintro ⟨bytes, hbytes, ho⟩
    rw [ofBytes?] at ho
    split at ho
    · rw [hbytes, ← Option.some.inj ho]
    · cases ho
  · intro hdecode
    exact ⟨o.bytes, hdecode, by rw [ofBytes?, dif_pos o.length_eq]⟩

end Octets

end SignedHttp
