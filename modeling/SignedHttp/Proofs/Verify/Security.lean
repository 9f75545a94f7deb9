import Mathlib.Algebra.GroupWithZero.Nat
import Mathlib.Data.Finset.Card
import SignedHttp.Verify.Security

/-!
# The Points of Covered Components

The scheme of points speaks of components as of a set: so much for the method, for the target
and for the digest, so much for one other header and for two, and so much for each of four
headers that bear on security (`schemePoints`). What is assessed is a list, as it was read off
the wire, and a list may name a component twice.

The order of the list does not matter, since it is only searched, filtered and counted. But the
headers are counted as they are listed, so a header that is listed again counts again: a single
header passes for two, and each of the four gives its points each time. `repeatPoints` is what
this comes to, and the points that are given are those of the scheme and these
(`points_eq_add`). Without such repetitions the list gives what the set gives.

## Main definitions

* `points`: The points of a list, before they are cut off at 100.
* `schemePoints`: The points of the components, each of them once.
* `repeatPoints`: The points of headers that are listed again.

## Theorems

* `points_eq`: The points that are given, without the texts.
* `points_le_of_subperm`: More components do not have fewer points.
* `length_filter_contains`: Entries are counted name by name.
* `points_eq_add`: What is given is the points of the scheme and those of repetitions.
* `repeatPoints_eq_zero_iff`: Which repetitions have no points.
* `assess_score_and_level`: How the score and the level depend on what is listed.
-/

namespace SignedHttp

namespace ComponentSecurity

variable {covered : List Bytes}

/-- The points of covered components, before they are cut off. -/
def points (covered : List Bytes) : Nat :=
  (aspects covered).foldl (fun sum a => sum + a.points) 0

/-- The points of a component that is to be covered. -/
def pointsIf (name : Bytes) (value : Nat) (covered : List Bytes) : Nat :=
  if covered.contains name then value else 0

/-- The points of so many headers. -/
def headerPoints (n : Nat) : Nat := if 2 ≤ n then 20 else if n = 1 then 10 else 0

/-- How many different headers are covered, apart from the digest. -/
def distinctHeaders (covered : List Bytes) : Nat := (headersOf covered).toFinset.card

/-- The points of the components by the scheme, in which each of them counts once. -/
def schemePoints (covered : List Bytes) : Nat :=
  pointsIf "@method" 20 covered + pointsIf "@target-uri" 20 covered
    + pointsIf "content-digest" 30 covered + headerPoints (distinctHeaders covered)
    + (securityHeaders.map fun name => pointsIf name 5 covered).sum

/-- The points of headers that are listed again: of a single header, which passes for two, and of
each of the headers that bear on security. -/
def repeatPoints (covered : List Bytes) : Nat :=
  (if distinctHeaders covered = 1 ∧ 2 ≤ (headersOf covered).length then 10 else 0)
    + (securityHeaders.map fun name => 5 * (covered.count name - 1)).sum

/-! ### What is given -/

theorem points_componentAspect (covered : List Bytes) (name : Bytes) (value : Nat)
    (strength weakness : Bytes) :
    (componentAspect covered name value strength weakness).points
      = pointsIf name value covered := by
  unfold componentAspect pointsIf
  cases covered.contains name <;> rfl

theorem pointsIf_of_mem {name : Bytes} (h : name ∈ covered) (value : Nat) :
    pointsIf name value covered = value := if_pos (List.contains_iff_mem.2 h)

theorem pointsIf_of_not_mem {name : Bytes} (h : name ∉ covered) (value : Nat) :
    pointsIf name value covered = 0 := if_neg fun hc => h (List.contains_iff_mem.1 hc)

theorem points_headerAspect (headers : List Bytes) :
    (headerAspect headers).points = headerPoints headers.length := by
  unfold headerAspect headerPoints
  rcases headers with _ | ⟨first, _ | ⟨second, rest⟩⟩
  · rfl
  · rfl
  · rw [if_pos (by simp)]
    rfl

theorem points_securityAspect (headers : List Bytes) :
    (securityAspect headers).points = 5 * (headers.filter securityHeaders.contains).length := by
  unfold securityAspect
  by_cases h : headers.filter securityHeaders.contains = []
  · simp only [h, List.isEmpty_nil, if_true, List.length_nil, Nat.mul_zero]
  · simp only [List.isEmpty_iff, h, if_false]

theorem points_eq (covered : List Bytes) :
    points covered = pointsIf "@method" 20 covered + pointsIf "@target-uri" 20 covered
      + pointsIf "content-digest" 30 covered + headerPoints (headersOf covered).length
      + 5 * ((headersOf covered).filter securityHeaders.contains).length := by
  simp only [points, aspects, List.foldl_cons, List.foldl_nil, points_componentAspect,
    points_headerAspect, points_securityAspect, Nat.zero_add]

/-! ### Order, and more components -/

theorem headerPoints_mono {m n : Nat} (h : m ≤ n) : headerPoints m ≤ headerPoints n := by
  unfold headerPoints
  split_ifs <;> omega

theorem pointsIf_mono {l : List Bytes} (h : covered ⊆ l) (name : Bytes) (value : Nat) :
    pointsIf name value covered ≤ pointsIf name value l := by
  by_cases hname : name ∈ covered
  · rw [pointsIf_of_mem hname, pointsIf_of_mem (h hname)]
  · rw [pointsIf_of_not_mem hname]
    exact Nat.zero_le _

/-- A list that has all of the entries of another one, in whatever order, has no fewer points. -/
theorem points_le_of_subperm {l : List Bytes} (h : covered.Subperm l) :
    points covered ≤ points l := by
  have hheaders : (headersOf covered).Subperm (headersOf l) := h.filter _
  -- Each kind of points grows with what is covered.
  have hcount := headerPoints_mono hheaders.length_le
  have hsecurity := (hheaders.filter securityHeaders.contains).length_le
  have hmethod := pointsIf_mono h.subset "@method" 20
  have htarget := pointsIf_mono h.subset "@target-uri" 20
  have hdigest := pointsIf_mono h.subset "content-digest" 30
  rw [points_eq, points_eq]
  omega

theorem points_perm {l : List Bytes} (h : l.Perm covered) : points l = points covered :=
  Nat.le_antisymm (points_le_of_subperm h.subperm) (points_le_of_subperm h.symm.subperm)

/-! ### The scheme -/

/-- The scheme looks at which components there are, and at nothing else. -/
theorem schemePoints_congr {l : List Bytes} (h : ∀ c, c ∈ l ↔ c ∈ covered) :
    schemePoints l = schemePoints covered := by
  have hif : ∀ name value, pointsIf name value l = pointsIf name value covered := by
    intro name value
    simp only [pointsIf, List.contains_iff_mem, h name]
  have hdistinct : (headersOf l).toFinset = (headersOf covered).toFinset := by
    ext c
    simp only [headersOf, List.mem_toFinset, List.mem_filter, h c]
  simp only [schemePoints, distinctHeaders, hif, hdistinct]

/-! ### Repetition -/

/-- One entry more is counted once for each time its name is among the names. -/
theorem sum_map_count_cons (names : List Bytes) (b : Bytes) (l : List Bytes) :
    (names.map fun name => (b :: l).count name).sum
      = (names.map fun name => l.count name).sum + names.count b := by
  induction names with
  | nil => rfl
  | cons name names ih =>
      rw [List.map_cons, List.sum_cons, List.map_cons, List.sum_cons, ih, List.count_cons,
        List.count_cons, Bool.beq_comm]
      omega

/-- The entries with one of some different names are counted name by name. -/
theorem length_filter_contains {names : List Bytes} (hnames : names.Nodup) (l : List Bytes) :
    (l.filter names.contains).length = (names.map fun name => l.count name).sum := by
  induction l with
  | nil => simp
  | cons b l ih =>
      rw [sum_map_count_cons, ← ih]
      -- The names are different, so an entry has one of them or none.
      by_cases h : b ∈ names
      · rw [List.filter_cons_of_pos (List.contains_iff_mem.2 h), List.length_cons,
          List.count_eq_one_of_mem hnames h]
      · rw [List.filter_cons_of_neg (fun hc => h (List.contains_iff_mem.1 hc)),
          List.count_eq_zero_of_not_mem h, Nat.add_zero]

/-- Each entry of a name gives its points: the first one those of the scheme. -/
theorem sum_map_count_eq_add (names : List Bytes) (value : Nat) (covered : List Bytes) :
    value * (names.map fun name => covered.count name).sum
      = (names.map fun name => pointsIf name value covered).sum
        + (names.map fun name => value * (covered.count name - 1)).sum := by
  have hname : ∀ name, value * covered.count name
      = pointsIf name value covered + value * (covered.count name - 1) := by
    intro name
    -- The first entry of a name counts for the scheme, and the others are repetitions.
    by_cases h : name ∈ covered
    · have hpos : 0 < covered.count name := List.count_pos_iff.2 h
      rw [pointsIf_of_mem h, Nat.mul_sub_one]
      have hle : value ≤ value * covered.count name := Nat.le_mul_of_pos_right value hpos
      omega
    · rw [pointsIf_of_not_mem h, List.count_eq_zero_of_not_mem h, Nat.zero_sub, Nat.zero_add]
  induction names with
  | nil => rfl
  | cons name names ih =>
      simp only [List.map_cons, List.sum_cons, Nat.mul_add, hname name, ih]
      omega

/-- A header that bears on security is listed among the headers as often as in the whole. -/
theorem count_headersOf {name : Bytes} (h : name ∈ securityHeaders) (covered : List Bytes) :
    (headersOf covered).count name = covered.count name := by
  have hall : ∀ c ∈ securityHeaders, (!isDerived c && c != "content-digest") = true := by decide
  exact List.count_filter (hall name h)

/-- How many headers are listed matters only if they are all the same one. -/
theorem headerPoints_length (covered : List Bytes) :
    headerPoints (headersOf covered).length = headerPoints (distinctHeaders covered)
      + if distinctHeaders covered = 1 ∧ 2 ≤ (headersOf covered).length then 10 else 0 := by
  have hle : distinctHeaders covered ≤ (headersOf covered).length := List.toFinset_card_le _
  -- No different header means none at all; one that is listed twice passes for two.
  have hzero : distinctHeaders covered = 0 → (headersOf covered).length = 0 := by
    intro h
    rw [distinctHeaders, Finset.card_eq_zero, List.toFinset_eq_empty_iff] at h
    rw [h, List.length_nil]
  unfold headerPoints
  split_ifs <;> omega

/-- What is given is the points of the scheme and those of headers that are listed again. -/
theorem points_eq_add (covered : List Bytes) :
    points covered = schemePoints covered + repeatPoints covered := by
  have hcounts : (securityHeaders.map fun name => (headersOf covered).count name)
      = securityHeaders.map fun name => covered.count name :=
    List.map_congr_left fun name h => count_headersOf h covered
  -- The headers as they are listed give those of the scheme and the rest, name by name.
  rw [points_eq, headerPoints_length, length_filter_contains (by decide), hcounts,
    sum_map_count_eq_add]
  unfold schemePoints repeatPoints
  omega

/-- Repetitions have no points if none of the headers that bear on security is listed again, and
no other header either that is the only one. -/
theorem repeatPoints_eq_zero_iff (covered : List Bytes) :
    repeatPoints covered = 0 ↔ (∀ name ∈ securityHeaders, covered.count name ≤ 1)
      ∧ (distinctHeaders covered = 1 → (headersOf covered).length = 1) := by
  have hle : distinctHeaders covered ≤ (headersOf covered).length := List.toFinset_card_le _
  unfold repeatPoints
  rw [Nat.add_eq_zero_iff, List.sum_eq_zero_iff_forall_eq_nat, List.forall_mem_map]
  constructor
  · rintro ⟨hsingle, hsecurity⟩
    refine ⟨fun name hname => ?_, fun hone => ?_⟩
    · have := hsecurity name hname
      omega
    · split_ifs at hsingle
      omega
  · rintro ⟨hsecurity, hsingle⟩
    refine ⟨?_, fun name hname => ?_⟩
    · rw [if_neg]
      rintro ⟨hone, htwo⟩
      have := hsingle hone
      omega
    · have := hsecurity name hname
      omega

/-- Nothing has points for repetition in a list without one. -/
theorem repeatPoints_of_nodup (h : covered.Nodup) : repeatPoints covered = 0 := by
  refine (repeatPoints_eq_zero_iff covered).2
    ⟨fun name _ => List.nodup_iff_count_le_one.1 h name, fun hdistinct => ?_⟩
  have hheaders : (headersOf covered).Nodup := h.filter _
  rw [← hdistinct, distinctHeaders, List.toFinset_card_of_nodup hheaders]

/-! ### Score and level -/

theorem score_assess (covered : List Bytes) :
    (assess covered).score = min (points covered) 100 := rfl

theorem level_assess (covered : List Bytes) :
    (assess covered).level = levelOf (points covered) := rfl

/-- The score and the level do not depend on the order of the components, and more components do
not have a lower score. They are those of the scheme for a list without repetitions. What is listed
again adds to them if it is a header that bears on security, or the only header there is. -/
theorem assess_score_and_level (covered : List Bytes) :
    (∀ l, l.Perm covered → (assess l).score = (assess covered).score
      ∧ (assess l).level = (assess covered).level)
    ∧ (assess covered).score = min 100 (schemePoints covered + repeatPoints covered)
    ∧ (assess covered).level = levelOf (schemePoints covered + repeatPoints covered)
    ∧ (assess covered.dedup).score = min 100 (schemePoints covered)
    ∧ (assess covered.dedup).level = levelOf (schemePoints covered)
    ∧ (repeatPoints covered = 0 ↔ (∀ name ∈ securityHeaders, covered.count name ≤ 1)
      ∧ (distinctHeaders covered = 1 → (headersOf covered).length = 1))
    ∧ ∀ l, covered.Subperm l → (assess covered).score ≤ (assess l).score := by
  -- Without repetitions the list is as good as the set.
  have hdedup : points covered.dedup = schemePoints covered := by
    rw [points_eq_add, repeatPoints_of_nodup (List.nodup_dedup covered), Nat.add_zero,
      schemePoints_congr fun _ => List.mem_dedup]
  refine ⟨?_, ?_, ?_, ?_, ?_, repeatPoints_eq_zero_iff covered, ?_⟩
  · intro l h
    rw [score_assess, score_assess, level_assess, level_assess, points_perm h]
    exact ⟨rfl, rfl⟩
  · rw [score_assess, points_eq_add, Nat.min_comm]
  · rw [level_assess, points_eq_add]
  · rw [score_assess, hdedup, Nat.min_comm]
  · rw [level_assess, hdedup]
  · intro l h
    have hle := points_le_of_subperm h
    rw [score_assess, score_assess]
    omega

/-- A header that is listed twice passes for two headers and gives its own points twice, wherever it
stands, and another header does not take away from that. -/
theorem assess_repeated_header :
    (assess ["host", "@method", "host"]).score = 50
      ∧ (assess ["host", "@method", "host"]).level = .medium
      ∧ (assess (List.dedup ["@method", "host", "host"])).score = 35
      ∧ (assess (List.dedup ["@method", "host", "host"])).level = .low
      ∧ 50 ≤ (assess ["date", "@method", "host", "host"]).score := by
  rcases assess_score_and_level ["@method", "host", "host"] with
    ⟨hperm, hscore, hlevel, hscoreDedup, hlevelDedup, -, hmore⟩
  have hscheme : schemePoints ["@method", "host", "host"] = 35 := by decide
  have hrepeat : repeatPoints ["@method", "host", "host"] = 15 := by decide
  rcases hperm ["host", "@method", "host"] (by decide) with ⟨hsame, hsameLevel⟩
  rw [hscheme, hrepeat] at hscore hlevel
  rw [hscheme] at hscoreDedup hlevelDedup
  refine ⟨hsame.trans hscore, hsameLevel.trans hlevel, hscoreDedup, hlevelDedup, ?_⟩
  have hle := hmore ["date", "@method", "host", "host"] (List.sublist_cons_self ..).subperm
  rw [hscore] at hle
  exact hle

end ComponentSecurity

end SignedHttp
