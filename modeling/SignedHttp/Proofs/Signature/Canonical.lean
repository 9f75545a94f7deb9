import SignedHttp.Proofs.Text.Decimal
import SignedHttp.Proofs.Text.Split
import SignedHttp.Signature.Canonical

/-!
# Unique Reading of Canonical Messages

The bytes that are signed are lines joined by line feeds, and a value may hold line
feeds of its own, quotes, backslashes, and text that looks like another line. Still
the lines are determined by the bytes, because every line begins with a quote and
every quote of a value has a backslash before it: a line feed with a quote after it
can only be the end of a line (`escaped_line_inj`). Backslashes need no escape for
this, the byte before a quote is enough.

The last line has no end to be found. It is known by its name, which no covered
component has, and it is not escaped. So `signedText` keeps it apart: the text of
some named values, then the last line with whatever stands in it. Two such texts
are equal only if the values and the last lines are (`signedText_inj`).

In the last line every value but the last is followed by a semicolon. Values that
hold no semicolon are therefore determined by the line (`render_inj`).

## Main definitions

* `IsLineName`: A name that can stand at the beginning of a component's line.
* `signedText`: The text of named values and of the last line.

## Theorems

* `escaped_line_inj`: An escaped value ends where the next line begins.
* `signedText_inj`: The text determines the values and the last line.
* `text_ofLines`: The signed bytes are such a text.
* `mem_lines_ofLines`, `name_eq_of_line_begins`: The lines, and how a line shows its name.
* `render_inj`: The last line determines the parameters.
-/

namespace SignedHttp

/-- The name of the line with the parameters. -/
def paramsLineName : Bytes := "@signature-params"

/-- A name without quotes that is not the name of the last line. -/
def IsLineName (name : Bytes) : Prop := Ascii.quote ∉ name ∧ name ≠ paramsLineName

/-- The lines of named values, and the last line, which says `params`. -/
def signedText (params : Bytes) : List (Bytes × Bytes) → Bytes
  | [] => componentLine paramsLineName [] ++ params
  | (name, value) :: rest =>
    componentLine name value ++ Ascii.lineFeed :: signedText params rest

theorem escapeQuotes_cons_quote (s : Bytes) :
    escapeQuotes (Ascii.quote :: s) = Ascii.backslash :: Ascii.quote :: escapeQuotes s := rfl

theorem escapeQuotes_cons_of_ne {b : UInt8} (h : b ≠ Ascii.quote) (s : Bytes) :
    escapeQuotes (b :: s) = b :: escapeQuotes s := by
  rw [escapeQuotes, List.flatMap_cons, if_neg h]
  rfl

/-- Nothing that begins with an escaped value, or with the line feed after it, begins with a
quote. -/
theorem escaped_ne_quote_cons (value rest t : Bytes) :
    escapeQuotes value ++ Ascii.lineFeed :: rest ≠ Ascii.quote :: t := by
  intro h
  -- An escaped value begins with a backslash if its first byte is a quote.
  cases value with
  | nil => exact absurd (List.cons.inj h).1 (by decide)
  | cons b value =>
      by_cases hb : b = Ascii.quote
      · rw [hb, escapeQuotes_cons_quote] at h
        exact absurd (List.cons.inj h).1 (by decide)
      · rw [escapeQuotes_cons_of_ne hb] at h
        exact hb (List.cons.inj h).1

/-- A line feed with a quote after it ends an escaped value. -/
theorem escaped_line_inj {v w s t : Bytes}
    (h : escapeQuotes v ++ Ascii.lineFeed :: Ascii.quote :: s
      = escapeQuotes w ++ Ascii.lineFeed :: Ascii.quote :: t) : v = w ∧ s = t := by
  -- By induction on both values at once: if one goes on, the other cannot have ended.
  induction v generalizing w with
  | nil =>
      cases w with
      | nil => exact ⟨rfl, (List.cons.inj (List.cons.inj h).2).2⟩
      | cons c w =>
          -- The line feed would have to be the first byte of `w`, and the quote an unescaped one.
          have hc : c ≠ Ascii.quote := by
            intro hquote
            subst hquote
            rw [escapeQuotes_cons_quote] at h
            exact absurd (List.cons.inj h).1 (by decide)
          rw [escapeQuotes_cons_of_ne hc] at h
          exact absurd (List.cons.inj h).2.symm (escaped_ne_quote_cons w _ _)
  | cons b v ih =>
      cases w with
      | nil =>
          have hb : b ≠ Ascii.quote := by
            intro hquote
            subst hquote
            rw [escapeQuotes_cons_quote] at h
            exact absurd (List.cons.inj h).1 (by decide)
          rw [escapeQuotes_cons_of_ne hb] at h
          exact absurd (List.cons.inj h).2 (escaped_ne_quote_cons v _ _)
      | cons c w =>
          by_cases hb : b = Ascii.quote
          · rw [hb, escapeQuotes_cons_quote] at h
            by_cases hc : c = Ascii.quote
            · rw [hc, escapeQuotes_cons_quote] at h
              rcases ih (List.cons.inj (List.cons.inj h).2).2 with ⟨hvw, hst⟩
              exact ⟨by rw [hb, hc, hvw], hst⟩
            · -- A backslash of the other value would have an unescaped quote after it.
              rw [escapeQuotes_cons_of_ne hc] at h
              exact absurd (List.cons.inj h).2.symm (escaped_ne_quote_cons w _ _)
          · rw [escapeQuotes_cons_of_ne hb] at h
            by_cases hc : c = Ascii.quote
            · rw [hc, escapeQuotes_cons_quote] at h
              exact absurd (List.cons.inj h).2 (escaped_ne_quote_cons v _ _)
            · rw [escapeQuotes_cons_of_ne hc] at h
              rcases ih (List.cons.inj h).2 with ⟨hvw, hst⟩
              exact ⟨by rw [(List.cons.inj h).1, hvw], hst⟩

/-- A line with what follows it, byte by byte up to the value. -/
theorem componentLine_append (name value rest : Bytes) :
    componentLine name value ++ rest = Ascii.quote :: (name ++ Ascii.quote
      :: Ascii.colon :: Ascii.space :: (escapeQuotes value ++ rest)) := by
  rw [componentLine, Bytes.quoted_eq, List.append_assoc, List.append_assoc, List.cons_append,
    List.append_assoc]
  rfl

/-- Without values there is only the last line, which begins like that of a component. -/
theorem signedText_nil (params : Bytes) :
    signedText params [] = Ascii.quote :: (paramsLineName ++ Ascii.quote
      :: Ascii.colon :: Ascii.space :: params) :=
  componentLine_append paramsLineName [] params

/-- With a value first there is its line, a line feed and the text of the others. -/
theorem signedText_cons (params name value : Bytes) (rest : List (Bytes × Bytes)) :
    signedText params ((name, value) :: rest) = Ascii.quote :: (name ++ Ascii.quote
      :: Ascii.colon :: Ascii.space
      :: (escapeQuotes value ++ Ascii.lineFeed :: signedText params rest)) :=
  componentLine_append name value _

/-- Every text, whether there are values or not, begins with the quote of a line's name. -/
theorem exists_signedText_eq_quote_cons (params : Bytes) (values : List (Bytes × Bytes)) :
    ∃ s, signedText params values = Ascii.quote :: s := by
  cases values with
  | nil => exact ⟨_, signedText_nil params⟩
  | cons e values => exact ⟨_, signedText_cons params e.1 e.2 values⟩

/-- The text determines the values and the last line. A name ends at its quote, and a value ends
where a line feed has a quote after it, because every line begins with one. The name of the last
line is not that of a value, so the texts end together. -/
theorem signedText_inj {vs ws : List (Bytes × Bytes)} {p q : Bytes}
    (hvs : ∀ e ∈ vs, IsLineName e.1) (hws : ∀ e ∈ ws, IsLineName e.1)
    (h : signedText p vs = signedText q ws) : vs = ws ∧ p = q := by
  have hlast : Ascii.quote ∉ paramsLineName := by decide
  -- By induction on the values of the one text; the other one has to begin with the same line.
  induction vs generalizing ws with
  | nil =>
      rw [signedText_nil] at h
      cases ws with
      | nil =>
          rw [signedText_nil] at h
          have hrest := (Bytes.append_cons_inj hlast hlast (List.cons.inj h).2).2
          exact ⟨rfl, (List.cons.inj (List.cons.inj hrest).2).2⟩
      | cons e ws =>
          -- The last line of the one text would be the line of a value in the other.
          have he := hws e (List.mem_cons_self ..)
          rw [signedText_cons] at h
          exact absurd (Bytes.append_cons_inj hlast he.1 (List.cons.inj h).2).1.symm he.2
  | cons d vs ih =>
      have hd := hvs d (List.mem_cons_self ..)
      rw [signedText_cons] at h
      cases ws with
      | nil =>
          rw [signedText_nil] at h
          exact absurd (Bytes.append_cons_inj hd.1 hlast (List.cons.inj h).2).1 hd.2
      | cons e ws =>
          have he := hws e (List.mem_cons_self ..)
          rw [signedText_cons] at h
          rcases Bytes.append_cons_inj hd.1 he.1 (List.cons.inj h).2 with ⟨hname, hrest⟩
          -- What follows the line feed begins with a quote on both sides.
          rcases exists_signedText_eq_quote_cons p vs with ⟨s, hs⟩
          rcases exists_signedText_eq_quote_cons q ws with ⟨t, ht⟩
          rw [hs, ht] at hrest
          rcases escaped_line_inj (List.cons.inj (List.cons.inj hrest).2).2 with ⟨hvalue, hst⟩
          -- So the values are the same, and the texts after them are equal as well.
          have hlines : signedText p vs = signedText q ws := by rw [hs, ht, hst]
          rcases ih (fun e he => hvs e (List.mem_cons_of_mem _ he))
            (fun e he => hws e (List.mem_cons_of_mem _ he)) hlines with ⟨hvw, hpq⟩
          exact ⟨by rw [hvw, Prod.ext hname hvalue], hpq⟩

/-- A separator stands after the first item if there is another one. -/
theorem join_cons_of_ne_nil (sep x : Bytes) {rest : List Bytes} (h : rest ≠ []) :
    Bytes.join sep (x :: rest) = x ++ (sep ++ Bytes.join sep rest) := by
  cases rest with
  | nil => exact absurd rfl h
  | cons y rest => rfl

/-- The bytes that are signed are the lines of the values with line feeds between them, so they are
a text of this kind. -/
theorem text_ofLines (values : List (Bytes × Bytes)) (p : Params) :
    (CanonicalMessage.ofLines values p).text = signedText (p.render (values.map (·.1))) values := by
  simp only [CanonicalMessage.text, CanonicalMessage.ofLines]
  -- The last line is the same on both sides, whatever it is made of.
  generalize p.render (values.map (·.1)) = params
  induction values with
  | nil => rfl
  | cons e values ih =>
      rw [List.map_cons, List.cons_append,
        join_cons_of_ne_nil _ _ (List.append_ne_nil_of_right_ne_nil _ (List.cons_ne_nil _ _)), ih]
      rfl

/-- The line at a position is that of the value there. -/
theorem getElem?_lines_ofLines {values : List (Bytes × Bytes)} {i : Nat} {e : Bytes × Bytes}
    (h : values[i]? = some e) (p : Params) :
    (CanonicalMessage.ofLines values p).lines[i]? = some (componentLine e.1 e.2) := by
  have hi : i < values.length := (List.getElem?_eq_some_iff.1 h).1
  simp only [CanonicalMessage.ofLines]
  rw [List.getElem?_append_left (by rw [List.length_map]; exact hi), List.getElem?_map, h]
  rfl

/-- A line is that of a value or the last one. -/
theorem mem_lines_ofLines {values : List (Bytes × Bytes)} {p : Params} {line : Bytes} :
    line ∈ (CanonicalMessage.ofLines values p).lines ↔
      (∃ e ∈ values, line = componentLine e.1 e.2) ∨
        line = componentLine paramsLineName [] ++ p.render (values.map (·.1)) := by
  simp only [CanonicalMessage.ofLines, List.mem_append, List.mem_map, List.mem_singleton]
  constructor
  · intro h
    rcases h with ⟨e, he, rfl⟩ | rfl
    · exact Or.inl ⟨e, he, rfl⟩
    · exact Or.inr rfl
  · intro h
    rcases h with ⟨e, he, rfl⟩ | rfl
    · exact Or.inl ⟨e, he, rfl⟩
    · exact Or.inr rfl

/-- A line that begins like the line of a name is a line of that name. -/
theorem name_eq_of_line_begins {name other value rest : Bytes} (hname : Ascii.quote ∉ name)
    (hother : Ascii.quote ∉ other)
    (h : (Bytes.quoted name).isPrefixOf (componentLine other value ++ rest) = true) :
    name = other := by
  rcases List.isPrefixOf_iff_prefix.1 h with ⟨t, ht⟩
  rw [Bytes.quoted_eq, componentLine_append, List.cons_append, List.append_assoc] at ht
  exact (Bytes.append_cons_inj hname hother (List.cons.inj ht).2).1

/-- A value in quotes before a semicolon is determined, if it holds none itself. -/
theorem quoted_semicolon_inj {x y s t : Bytes} (hx : Ascii.semicolon ∉ x)
    (hy : Ascii.semicolon ∉ y)
    (h : Bytes.quoted x ++ Ascii.semicolon :: s = Bytes.quoted y ++ Ascii.semicolon :: t) :
    x = y ∧ s = t := by
  -- The quotes hold no semicolon either, so the first one is that after the value.
  have hqx : Ascii.semicolon ∉ Bytes.quoted x := Bytes.not_mem_quoted (by decide) hx
  have hqy : Ascii.semicolon ∉ Bytes.quoted y := Bytes.not_mem_quoted (by decide) hy
  rcases Bytes.append_cons_inj hqx hqy h with ⟨hxy, hst⟩
  rw [← Bytes.unquote_quoted x, hxy, Bytes.unquote_quoted]
  exact ⟨rfl, hst⟩

/-- The last line, cut at the semicolons after its values. -/
theorem render_eq (covered : List Bytes) (p : Params) :
    p.render covered = componentList covered ++ (";created=" ++ (Decimal.ofInt p.created
      ++ Ascii.semicolon :: ("keyid=" ++ (Bytes.quoted p.keyId
      ++ Ascii.semicolon :: ("alg=" ++ (Bytes.quoted p.algorithm
      ++ Ascii.semicolon :: ("nonce=" ++ Bytes.quoted p.nonce))))))) := rfl

/-- Among parameters without semicolons in their texts, the last line determines them. The nonce may
hold any byte, because nothing comes after it. -/
theorem render_inj {covered : List Bytes} {p q : Params}
    (hpk : Ascii.semicolon ∉ p.keyId) (hqk : Ascii.semicolon ∉ q.keyId)
    (hpa : Ascii.semicolon ∉ p.algorithm) (hqa : Ascii.semicolon ∉ q.algorithm)
    (h : p.render covered = q.render covered) : p = q := by
  have hnumber : ∀ v, Ascii.semicolon ∉ Decimal.ofInt v := fun v =>
    Decimal.not_mem_ofInt (by decide) (by decide)
  -- The values are taken off from the left, each with the semicolon after it.
  rw [render_eq, render_eq] at h
  have h1 := List.append_cancel_left (List.append_cancel_left h)
  rcases Bytes.append_cons_inj (hnumber _) (hnumber _) h1 with ⟨hcreated, h2⟩
  rcases quoted_semicolon_inj hpk hqk (List.append_cancel_left h2) with ⟨hkeyId, h3⟩
  rcases quoted_semicolon_inj hpa hqa (List.append_cancel_left h3) with ⟨halgorithm, h4⟩
  have hnonce : p.nonce = q.nonce := by
    rw [← Bytes.unquote_quoted p.nonce, List.append_cancel_left h4, Bytes.unquote_quoted]
  cases p
  cases q
  simp only [Params.mk.injEq]
  exact ⟨Decimal.ofInt_injective hcreated, hkeyId, halgorithm, hnonce⟩

end SignedHttp
