import SignedHttp.Text.Bytes

/-!
# Named Values Between Colons

Signatures and digests are carried as a name, an equals sign and a value between
colons: `sig1=:0a1b:`. The name cannot hold the equals sign and the value cannot
hold a colon, and neither is empty; nothing may follow. So the two parts are
determined by the text (`parse?_eq_some_iff`).

## Main definitions

* `Delimited.render`: The text of a name and a value.
* `Delimited.parse?`: The name and the value of a text.

## Theorems

* `parse?_eq_some_iff`: Exactly the texts that are written are read.
-/

namespace SignedHttp

namespace Delimited

/-- A name and a value, the value between colons. -/
def render (name value : Bytes) : Bytes :=
  name ++ Ascii.equals :: Ascii.colon :: (value ++ [Ascii.colon])

/-- The name and the value of a text `name=:value:`. -/
def parse? (s : Bytes) : Option (Bytes × Bytes) :=
  match Bytes.cut Ascii.equals s with
  | some (name, b :: rest) =>
    if name.isEmpty ∨ b ≠ Ascii.colon then none
    else
      match Bytes.cut Ascii.colon rest with
      | some (value, []) => if value.isEmpty then none else some (name, value)
      | _ => none
  | _ => none

theorem parse?_eq_some_iff {s name value : Bytes} :
    parse? s = some (name, value) ↔
      s = render name value ∧ name ≠ [] ∧ Ascii.equals ∉ name ∧
        value ≠ [] ∧ Ascii.colon ∉ value := by
  constructor
  · intro h
    simp only [parse?] at h
    split at h
    · next n b rest hn =>
      split at h
      · cases h
      · next hb =>
        split at h
        · next v hv =>
          split at h
          · cases h
          · next he =>
            simp only [Option.some.injEq, Prod.mk.injEq] at h
            obtain ⟨rfl, rfl⟩ := h
            obtain ⟨rfl, hname⟩ := Bytes.cut_eq_some_iff.1 hn
            obtain ⟨rfl, hvalue⟩ := Bytes.cut_eq_some_iff.1 hv
            have hc : b = Ascii.colon := by simpa using fun hc => hb (Or.inr hc)
            subst hc
            exact ⟨rfl, fun h0 => hb (Or.inl (by simp [h0])), hname, by simpa using he, hvalue⟩
        · cases h
    · cases h
  · rintro ⟨rfl, hname, hequals, hvalue, hcolon⟩
    have h1 : Bytes.cut Ascii.equals (render name value)
        = some (name, Ascii.colon :: (value ++ [Ascii.colon])) :=
      Bytes.cut_eq_some_iff.2 ⟨rfl, hequals⟩
    have h2 : Bytes.cut Ascii.colon (value ++ [Ascii.colon]) = some (value, []) :=
      Bytes.cut_eq_some_iff.2 ⟨rfl, hcolon⟩
    simp [parse?, h1, h2, hname, hvalue]

end Delimited

end SignedHttp
