import SignedHttp.Crypto.Octets
import SignedHttp.Proofs.Text.Hex
import SignedHttp.Text.Delimited

/-!
# A Flipped Bit in a Text

One bit of a byte is flipped, and nothing else of the text is changed. The text is then
another one. If it was read as hexadecimal digits, it is read as other bytes too, with
one exception. A letter stands for the same value in either case, and its case is one
bit. Two texts that stand for the same bytes have digits of equal values, place by
place, and only the flip of a letter's case keeps the value of a digit
(`digitValue_flipBit`).

## Main definitions

* `Ascii.flipBit`: A byte with one bit flipped.
* `Bytes.flipBit`: A text with one bit flipped.

## Theorems

* `flipBit_ne`: A byte with a flipped bit is another one.
* `getElem?_flipBit_of_ne`: The other places of the text stay.
* `digitValue_flipBit`: Digits that stay the same but for one bit.
* `decode_flipBit`: The flip of a letter's case keeps the bytes.
* `place_of_flipBit`: A flip in a named value that keeps the name is one of the value.
-/

namespace SignedHttp

/-- The byte with one bit flipped. -/
def Ascii.flipBit (bit : Fin 8) (b : UInt8) : UInt8 := b ^^^ ((1 : UInt8) <<< UInt8.ofNat bit)

/-- The bit in which the two cases of a letter differ. -/
abbrev Ascii.caseBit : Fin 8 := 5

namespace Bytes

/-- The text with one bit flipped at a place. -/
def flipBit (place : Nat) (bit : Fin 8) (s : Bytes) : Bytes := s.modify place (Ascii.flipBit bit)

variable {place : Nat} {bit : Fin 8} {s : Bytes}

theorem getElem?_flipBit_self (place : Nat) (bit : Fin 8) (s : Bytes) :
    (s.flipBit place bit)[place]? = s[place]?.map (Ascii.flipBit bit) := by
  rw [flipBit, List.getElem?_modify_eq, Option.map_eq_map]

theorem getElem?_flipBit_of_ne {i : Nat} (h : place ≠ i) (bit : Fin 8) (s : Bytes) :
    (s.flipBit place bit)[i]? = s[i]? := by
  rw [flipBit, List.getElem?_modify_ne _ _ h]

theorem length_flipBit (place : Nat) (bit : Fin 8) (s : Bytes) :
    (s.flipBit place bit).length = s.length :=
  List.length_modify _ _ _

end Bytes

theorem Ascii.flipBit_ne (bit : Fin 8) (b : UInt8) : flipBit bit b ≠ b :=
  forall_of_fin (p := fun b => ∀ bit, flipBit bit b ≠ b) (by decide +kernel) b bit

/-- A text in which a bit of one of its bytes is flipped is another one. -/
theorem Bytes.getElem?_flipBit_ne {place : Nat} {s : Bytes} (h : place < s.length) (bit : Fin 8) :
    (s.flipBit place bit)[place]? ≠ s[place]? := by
  rw [getElem?_flipBit_self, List.getElem?_eq_getElem h, Option.map_some]
  exact fun hsame => Ascii.flipBit_ne bit _ (Option.some.inj hsame)

namespace Hex

/-- The flip of a bit keeps the value of a digit only if it changes the case of a letter. -/
theorem digitValue_flipBit {b : UInt8} {bit : Fin 8}
    (h : digitValue (Ascii.flipBit bit b) = digitValue b) (hdigit : digitValue b ≠ none) :
    Ascii.isLetter b = true ∧ bit = Ascii.caseBit :=
  Ascii.forall_of_fin (p := fun b => ∀ bit, digitValue (Ascii.flipBit bit b) = digitValue b →
    digitValue b ≠ none → Ascii.isLetter b = true ∧ bit = Ascii.caseBit) (by decide +kernel) b bit
    h hdigit

/-- The flip of a letter's case keeps what the digits stand for. -/
theorem decode_flipBit {s : Bytes} {i : Nat} {b : UInt8} (hb : s[i]? = some b)
    (hletter : Ascii.isLetter b = true) : decode (s.flipBit i Ascii.caseBit) = decode s := by
  have hsame : digitValue (Ascii.flipBit Ascii.caseBit b) = digitValue b :=
    Ascii.forall_of_fin (p := fun b => Ascii.isLetter b = true →
      digitValue (Ascii.flipBit Ascii.caseBit b) = digitValue b) (by decide +kernel) b hletter
  refine decode_congr _ _ (List.ext_getElem? fun j => ?_)
  rw [List.getElem?_map, List.getElem?_map]
  -- Place by place the values of the digits are the same.
  by_cases hj : i = j
  · rw [← hj, Bytes.getElem?_flipBit_self, hb, Option.map_some, Option.map_some, hsame]
    rfl
  · rw [Bytes.getElem?_flipBit_of_ne hj]

/-- A flipped bit among the digits that keeps what they stand for changes the case of a letter. -/
theorem isLetter_of_flipBit {s t bytes : Bytes} {i : Nat} {bit : Fin 8}
    (hs : decode s = some bytes) (ht : decode t = some bytes) (hi : i < s.length)
    (hflip : t[i]? = s[i]?.map (Ascii.flipBit bit)) :
    ∃ b, s[i]? = some b ∧ Ascii.isLetter b = true ∧ bit = Ascii.caseBit := by
  -- Equal bytes come from digits of equal values, also at this place.
  have hvalues := congrArg (·[i]?) (map_digitValue_of_decode_eq ht hs)
  simp only [List.getElem?_map, hflip, List.getElem?_eq_getElem hi, Option.map_some,
    Option.some.injEq] at hvalues
  have hdigit := digitValue_ne_none_of_decode hs s[i] (List.getElem_mem hi)
  rcases digitValue_flipBit hvalues hdigit with ⟨hletter, hbit⟩
  exact ⟨s[i], List.getElem?_eq_getElem hi, hletter, hbit⟩

end Hex

/-- The flip of a letter's case keeps the bytes that were read. -/
theorem Octets.ofHex?_flipBit {n i : Nat} {s : Bytes} {b : UInt8} (hb : s[i]? = some b)
    (hletter : Ascii.isLetter b = true) :
    ofHex? n (s.flipBit i Ascii.caseBit) = ofHex? n s := by
  rw [ofHex?, ofHex?, Bytes.length_flipBit, Hex.decode_flipBit hb hletter]

namespace Delimited

/-- What stands at a place: a byte before the value, of the value, or behind it. -/
theorem getElem?_render (name value : Bytes) (place : Nat) :
    (render name value)[place]?
      = if place < name.length + 2 then (name ++ [Ascii.equals, Ascii.colon])[place]?
        else if place - (name.length + 2) < value.length then value[place - (name.length + 2)]?
        else [Ascii.colon][place - (name.length + 2) - value.length]? := by
  have hshape : render name value
      = (name ++ [Ascii.equals, Ascii.colon]) ++ (value ++ [Ascii.colon]) := by
    rw [render, List.append_assoc]
    rfl
  have hfront : (name ++ [Ascii.equals, Ascii.colon]).length = name.length + 2 :=
    List.length_append
  rw [hshape]
  by_cases hbefore : place < name.length + 2
  · rw [if_pos hbefore, List.getElem?_append_left (hfront ▸ hbefore)]
  · rw [if_neg hbefore, List.getElem?_append_right (by omega), hfront, List.getElem?_append]

/-- A byte behind the name is one of the value, unless it is the last colon. -/
theorem getElem?_of_render {name value : Bytes} {i : Nat} {b : UInt8}
    (h : (render name value)[name.length + 2 + i]? = some b) (hb : b ≠ Ascii.colon) :
    i < value.length ∧ value[i]? = some b := by
  rw [getElem?_render, if_neg (by omega), Nat.add_sub_cancel_left] at h
  split at h
  · next hi => exact ⟨hi, h⟩
  · exact absurd (List.mem_singleton.1 (List.mem_of_getElem? h)) hb

/-- A flipped bit of the value is one of the named value, further on. -/
theorem render_flipBit (name : Bytes) {value : Bytes} {i : Nat} (hi : i < value.length)
    (bit : Fin 8) :
    (render name value).flipBit (name.length + 2 + i) bit
      = render name (value.flipBit i bit) := by
  refine List.ext_getElem? fun j => ?_
  rw [getElem?_render name (value.flipBit i bit), Bytes.length_flipBit]
  by_cases hj : name.length + 2 + i = j
  · have hbehind : ¬ name.length + 2 + i < name.length + 2 := by omega
    rw [← hj, Bytes.getElem?_flipBit_self, getElem?_render, if_neg hbehind, if_neg hbehind,
      Nat.add_sub_cancel_left, if_pos hi, if_pos hi, Bytes.getElem?_flipBit_self]
  · rw [Bytes.getElem?_flipBit_of_ne hj, getElem?_render]
    -- Besides the place itself nothing changes, on either side of it.
    by_cases hbefore : j < name.length + 2
    · rw [if_pos hbefore, if_pos hbefore]
    · rw [if_neg hbefore, if_neg hbefore, Bytes.getElem?_flipBit_of_ne (by omega)]

/-- If a flipped bit makes of a named value between colons another value of the same name, as
long as the first, then it is a bit of the value. -/
theorem place_of_flipBit {name v v' : Bytes} {place : Nat} {bit : Fin 8}
    (hlength : v'.length = v.length) (hplace : place < (render name v).length)
    (h : render name v' = (render name v).flipBit place bit) :
    ∃ i, place = name.length + 2 + i ∧ i < v.length ∧ v'[i]? = v[i]?.map (Ascii.flipBit bit) := by
  have hchanged : (render name v')[place]? ≠ (render name v)[place]? := by
    rw [h]
    exact Bytes.getElem?_flipBit_ne hplace bit
  have hflipped : (render name v')[place]? = (render name v)[place]?.map (Ascii.flipBit bit) := by
    rw [h, Bytes.getElem?_flipBit_self]
  rw [getElem?_render, getElem?_render, hlength] at hchanged hflipped
  -- What stands before the value and behind it is the same in both texts.
  by_cases hbefore : place < name.length + 2
  · rw [if_pos hbefore, if_pos hbefore] at hchanged
    exact absurd rfl hchanged
  · rw [if_neg hbefore, if_neg hbefore] at hchanged hflipped
    by_cases hvalue : place - (name.length + 2) < v.length
    · rw [if_pos hvalue, if_pos hvalue] at hflipped
      exact ⟨place - (name.length + 2), by omega, hvalue, hflipped⟩
    · rw [if_neg hvalue, if_neg hvalue] at hchanged
      exact absurd rfl hchanged

end Delimited

end SignedHttp
