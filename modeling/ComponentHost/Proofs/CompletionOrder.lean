/-
# The order of proposals

Editors sort proposals by a text.  To keep the compiler's order among equal texts, the place of a
proposal in the list is written behind its text.  But editors compare texts and not numbers: `"10"`
stands before `"9"`.

This file says which proposals do stay in order.  Two numbers are compared as texts by their first
digits, as many as the shorter one has (`toDigits_lt_toDigits_iff`).  So of two proposals with equal
texts the first stays first exactly if its place is at most the number that the first digits of the
other place make.  All is well among the first ten; a list of eleven equal texts is out of order.
-/
import Mathlib.Algebra.Group.Nat.Defs
import ComponentHost.Editor.Messages

namespace ComponentHost

/-! ## 1. Numbers compared as texts

The text of a number has its greatest digit first.  Of two numbers with equally many digits the
first digits that differ decide, in either order.  With different numbers of digits the shorter one
is compared with what the longer one starts with, and if the two are equal it stands first. -/

/-- Texts of which the first parts have the same length are compared by their first parts, and
then by the rest. -/
theorem append_lt_append_iff {a b : List Char} (h : a.length = b.length) (c d : List Char) :
    a ++ c < b ++ d ↔ a < b ∨ a = b ∧ c < d := by
  induction a generalizing b with
  | nil =>
    obtain rfl := List.length_eq_zero_iff.mp h.symm
    simp
  | cons x a ih =>
    cases b with
    | nil => simp at h
    | cons y b =>
      have hlength : a.length = b.length := by simpa using h
      simp only [List.cons_append, List.cons_lt_cons_iff, ih hlength, List.cons.injEq]
      constructor
      · rintro (hxy | ⟨rfl, hab | ⟨rfl, hcd⟩⟩)
        · exact Or.inl (Or.inl hxy)
        · exact Or.inl (Or.inr ⟨rfl, hab⟩)
        · exact Or.inr ⟨⟨rfl, rfl⟩, hcd⟩
      · rintro ((hxy | ⟨rfl, hab⟩) | ⟨⟨rfl, rfl⟩, hcd⟩)
        · exact Or.inl hxy
        · exact Or.inr ⟨rfl, Or.inl hab⟩
        · exact Or.inr ⟨rfl, Or.inr ⟨rfl, hcd⟩⟩

theorem digitChar_lt_iff {x y : Nat} (hx : x < 10) (hy : y < 10) :
    x.digitChar < y.digitChar ↔ x < y := by
  have hall : ∀ x < 10, ∀ y < 10, x.digitChar < y.digitChar ↔ x < y := by decide
  exact hall x hx y hy

/-- Number of digits. -/
def digitCount (n : Nat) : Nat := (toString n).length

theorem digitCount_eq (n : Nat) : digitCount n = (Nat.toDigits 10 n).length := by
  rw [digitCount, Nat.toString_eq_ofList_toDigits, String.length_ofList]

theorem digitCount_le_iff {n k : Nat} (hk : 0 < k) : digitCount n ≤ k ↔ n < 10 ^ k := by
  rw [digitCount_eq, Nat.length_toDigits_le_iff (by decide) hk]

theorem digitCount_pos (n : Nat) : 0 < digitCount n := by
  rw [digitCount_eq]
  exact Nat.length_toDigits_pos

/-- The numbers with one digit are those below ten. -/
theorem digitCount_eq_one_iff {n : Nat} : digitCount n = 1 ↔ n < 10 := by
  have hpos := digitCount_pos n
  have hle : digitCount n ≤ 1 ↔ n < 10 := digitCount_le_iff (by decide)
  rw [← hle]
  omega

theorem digitCount_ten : digitCount 10 = 2 := by
  have hle : digitCount 10 ≤ 2 := (digitCount_le_iff (by decide)).mpr (by decide)
  have hne : digitCount 10 ≠ 1 := fun h => absurd (digitCount_eq_one_iff.mp h) (by decide)
  have hpos := digitCount_pos 10
  omega

theorem toDigits_inj {i j : Nat} : Nat.toDigits 10 i = Nat.toDigits 10 j ↔ i = j := by
  refine ⟨fun h => ?_, fun h => by rw [h]⟩
  rw [← Nat.ofDigitChars_ten_toDigits (n := i), h, Nat.ofDigitChars_ten_toDigits]

/-- A greater number has no fewer digits. -/
theorem digitCount_mono {i j : Nat} (h : i ≤ j) : digitCount i ≤ digitCount j := by
  have hj : j < 10 ^ digitCount j := (digitCount_le_iff (digitCount_pos j)).mp (Nat.le_refl _)
  exact (digitCount_le_iff (digitCount_pos j)).mpr (Nat.lt_of_le_of_lt h hj)

/-- The last digits of a number can be cut off by division. -/
theorem exists_toDigits_div {k n : Nat} (h : k < digitCount n) :
    ∃ last, Nat.toDigits 10 n = Nat.toDigits 10 (n / 10 ^ k) ++ last ∧ last.length = k := by
  induction k generalizing n with
  | zero => exact ⟨[], by simp, rfl⟩
  | succ k ih =>
    have hten : 10 ≤ n := by
      refine Nat.le_of_not_lt fun hless => ?_
      have hone := digitCount_eq_one_iff.mpr hless
      omega
    have hdigits := Nat.toDigits_of_base_le (by decide) hten
    have hcount : digitCount n = digitCount (n / 10) + 1 := by
      rw [digitCount_eq, digitCount_eq, hdigits]
      simp
    obtain ⟨last, hlast, hlength⟩ := ih (n := n / 10) (by omega)
    refine ⟨last ++ [(n % 10).digitChar], ?_, by simp [hlength]⟩
    rw [hdigits, hlast, Nat.div_div_eq_div_mul, ← Nat.pow_succ', List.append_assoc]

/-- Numbers with equally many digits are compared as numbers. -/
theorem toDigits_lt_toDigits_of_digitCount_eq {i j : Nat} (h : digitCount i = digitCount j) :
    Nat.toDigits 10 i < Nat.toDigits 10 j ↔ i < j := by
  induction i using Nat.strongRecOn generalizing j with
  | ind i ih =>
    by_cases hi : i < 10
    · have hj : j < 10 := digitCount_eq_one_iff.mp (h.symm.trans (digitCount_eq_one_iff.mpr hi))
      rw [Nat.toDigits_of_lt_base hi, Nat.toDigits_of_lt_base hj, List.cons_lt_cons_iff,
        digitChar_lt_iff hi hj]
      simp
    · have hj : 10 ≤ j := by
        refine Nat.le_of_not_lt fun hless => hi ?_
        exact digitCount_eq_one_iff.mp (h.trans (digitCount_eq_one_iff.mpr hless))
      have hi' := Nat.toDigits_of_base_le (by decide) (Nat.le_of_not_lt hi)
      have hj' := Nat.toDigits_of_base_le (by decide) hj
      have hcount : digitCount (i / 10) = digitCount (j / 10) := by
        rw [digitCount_eq, digitCount_eq, hi', hj'] at h
        simpa [digitCount_eq] using h
      have hfront := ih (i / 10) (by omega) hcount
      rw [digitCount_eq, digitCount_eq] at hcount
      rw [hi', hj', append_lt_append_iff hcount, hfront, toDigits_inj, List.cons_lt_cons_iff,
        digitChar_lt_iff (Nat.mod_lt _ (by decide)) (Nat.mod_lt _ (by decide))]
      simp only [List.not_lt_nil, and_false, or_false]
      omega

/-- **A number stands before a greater one as a text** exactly if it is at most the number that the
first digits of the greater one make. -/
theorem toDigits_lt_toDigits_iff {i j : Nat} (h : i < j) :
    Nat.toDigits 10 i < Nat.toDigits 10 j ↔ i ≤ j / 10 ^ (digitCount j - digitCount i) := by
  have hmono := digitCount_mono (Nat.le_of_lt h)
  have hpos := digitCount_pos i
  obtain ⟨last, hdigits, hlength⟩ :=
    exists_toDigits_div (k := digitCount j - digitCount i) (n := j) (by omega)
  have hcount : digitCount i = digitCount (j / 10 ^ (digitCount j - digitCount i)) := by
    have hwhole := congrArg List.length hdigits
    rw [List.length_append, ← digitCount_eq, ← digitCount_eq, hlength] at hwhole
    omega
  have hfront := toDigits_lt_toDigits_of_digitCount_eq hcount
  have hparts := append_lt_append_iff
    ((digitCount_eq i).symm.trans (hcount.trans (digitCount_eq _))) [] last
  rw [List.append_nil, ← hdigits, hfront, toDigits_inj] at hparts
  rw [hparts]
  constructor
  · rintro (hless | ⟨heq, -⟩)
    · exact Nat.le_of_lt hless
    · exact Nat.le_of_eq heq
  · intro hle
    rcases Nat.lt_or_eq_of_le hle with hless | heq
    · exact Or.inl hless
    · -- the shorter text is the beginning of the longer one
      refine Or.inr ⟨heq, ?_⟩
      cases last with
      | nil =>
        rw [List.length_nil] at hlength
        rw [← hlength, Nat.pow_zero, Nat.div_one] at heq
        omega
      | cons x last => simp

/-! ## 2. Proposals

The place of a proposal is counted among those that are shown.  A list of equal texts is in order if
each two of them are; with eleven of them the tenth and the eleventh are not, and with ten all
places have one digit. -/

namespace CompletionItem

/-- The proposals that are shown: all but the name of the bridge. -/
def shown (entries : List Proposal) : List Proposal :=
  entries.filter fun e => e.name != Bridge.identifier

theorem getElem?_ofProposals (ix : LineIndex) (entries : List Proposal) (n : Nat) :
    (ofProposals ix entries)[n]? = (shown entries)[n]?.map fun e => ofEntry ix e n := by
  rw [ofProposals, List.getElem?_map, List.getElem?_zipIdx, shown]
  simp [Option.map_map, Function.comp_def]

theorem length_ofProposals (ix : LineIndex) (entries : List Proposal) :
    (ofProposals ix entries).length = (shown entries).length := by
  simp [ofProposals, shown]

theorem shown_append (a b : List Proposal) : shown (a ++ b) = shown a ++ shown b :=
  List.filter_append _ _

theorem shown_cons {e : Proposal} (h : e.name ≠ Bridge.identifier) (rest : List Proposal) :
    shown (e :: rest) = e :: shown rest :=
  List.filter_cons_of_pos (by simpa using h)

/-- Equal texts with places behind them are compared by the places, as texts. -/
theorem sortText_lt_iff (ix : LineIndex) {e f : Proposal} (h : e.sortText = f.sortText)
    {i j : Nat} (hij : i < j) :
    (ofEntry ix e i).sortText < (ofEntry ix f j).sortText ↔
      i ≤ j / 10 ^ (digitCount j - digitCount i) := by
  rw [← toDigits_lt_toDigits_iff hij]
  simp only [ofEntry, h, String.lt_iff, String.toList_append, Nat.toString_eq_ofList_toDigits,
    String.toList_ofList]
  have hparts := append_lt_append_iff (a := f.sortText.toList) rfl
    (Nat.toDigits 10 i) (Nat.toDigits 10 j)
  rw [hparts]
  constructor
  · rintro (hless | ⟨-, hless⟩)
    · exact absurd hless (List.lt_irrefl _)
    · exact hless
  · intro hless
    exact Or.inr ⟨rfl, hless⟩

/-- Places with equally many digits keep the order. -/
theorem sortText_lt_of_digitCount_eq (ix : LineIndex) {e f : Proposal}
    (h : e.sortText = f.sortText) {i j : Nat} (hij : i < j) (hdigits : digitCount i = digitCount j) :
    (ofEntry ix e i).sortText < (ofEntry ix f j).sortText := by
  rw [sortText_lt_iff ix h hij, hdigits, Nat.sub_self, Nat.pow_zero, Nat.div_one]
  exact Nat.le_of_lt hij

/-- **Equal texts stay in order exactly in lists of at most ten.**  The tenth proposal and the
eleventh change places. -/
theorem pairwise_sortText_iff (ix : LineIndex) {key : String} {entries : List Proposal}
    (h : ∀ e ∈ entries, e.sortText = key) :
    (ofProposals ix entries).Pairwise (fun a b => a.sortText < b.sortText) ↔
      (shown entries).length ≤ 10 := by
  have hkey : ∀ e ∈ shown entries, e.sortText = key := fun e he => h e (List.mem_filter.mp he).1
  -- the text of an item is the common text with its place
  have hitem : ∀ i (hi : i < (ofProposals ix entries).length), ∃ e,
      e.sortText = key ∧ (ofProposals ix entries)[i] = ofEntry ix e i := by
    intro i hi
    have hi' : i < (shown entries).length := by rwa [length_ofProposals] at hi
    refine ⟨(shown entries)[i], hkey _ (List.getElem_mem hi'), ?_⟩
    have hget := getElem?_ofProposals ix entries i
    rw [List.getElem?_eq_getElem hi, List.getElem?_eq_getElem hi'] at hget
    exact Option.some.inj hget
  rw [List.pairwise_iff_getElem]
  constructor
  · intro hpairs
    refine Nat.le_of_not_lt fun hmany => ?_
    have hten : 10 < (ofProposals ix entries).length := by rwa [length_ofProposals]
    obtain ⟨e, he, hnine⟩ := hitem 9 (by omega)
    obtain ⟨f, hf, heleven⟩ := hitem 10 hten
    have hless := hpairs 9 10 (by omega) hten (by decide)
    rw [hnine, heleven, sortText_lt_iff ix (he.trans hf.symm) (by decide)] at hless
    rw [digitCount_ten, digitCount_eq_one_iff.mpr (by decide)] at hless
    exact absurd hless (by decide)
  · intro hfew i j hi hj hij
    rw [length_ofProposals] at hj
    obtain ⟨e, he, hei⟩ := hitem i hi
    obtain ⟨f, hf, hfj⟩ := hitem j (by rwa [length_ofProposals])
    rw [hei, hfj]
    refine sortText_lt_of_digitCount_eq ix (he.trans hf.symm) hij ?_
    rw [digitCount_eq_one_iff.mpr (by omega), digitCount_eq_one_iff.mpr (by omega)]

/-- **Which proposals keep the compiler's order.**  Of two shown proposals with equal texts the
first is sorted first exactly if its place is at most the number that the first digits of the other
place make, as many digits as its own place has.  So a list of equal texts stays in order exactly
if at most ten of them are shown. -/
theorem ofProposals_order (ix : LineIndex) :
    (∀ (before between after : List Proposal) (e f : Proposal),
      e.name ≠ Bridge.identifier → f.name ≠ Bridge.identifier → e.sortText = f.sortText →
      let items := ofProposals ix (before ++ e :: (between ++ f :: after))
      let i := (shown before).length
      let j := i + 1 + (shown between).length
      ∃ a b, items[i]? = some a ∧ items[j]? = some b ∧ a.label = e.name ∧ b.label = f.name ∧
        (a.sortText < b.sortText ↔ i ≤ j / 10 ^ (digitCount j - digitCount i))) ∧
    ∀ (key : String) (entries : List Proposal), (∀ e ∈ entries, e.sortText = key) →
      ((ofProposals ix entries).Pairwise (fun a b => a.sortText < b.sortText) ↔
        (shown entries).length ≤ 10) := by
  refine ⟨?_, fun key entries => pairwise_sortText_iff ix⟩
  intro before between after e f he hf hsame
  refine ⟨ofEntry ix e _, ofEntry ix f _, ?_, ?_, rfl, rfl, sortText_lt_iff ix hsame (by omega)⟩
  · rw [getElem?_ofProposals, shown_append, shown_cons he,
      List.getElem?_append_right (Nat.le_refl _), Nat.sub_self]
    rfl
  · rw [getElem?_ofProposals, shown_append, shown_cons he, shown_append, shown_cons hf,
      List.getElem?_append_right (by omega)]
    have hplace : (shown before).length + 1 + (shown between).length - (shown before).length
        = (shown between).length + 1 := by omega
    rw [hplace, List.getElem?_cons_succ, List.getElem?_append_right (Nat.le_refl _), Nat.sub_self]
    rfl

/-- The name of the bridge takes no place. -/
theorem ofProposals_order_bridge :
    let items := ofProposals (.ofText "") [⟨Bridge.identifier, .alias, "0", none, none⟩,
      ⟨"data", .property, "0", none, none⟩, ⟨"methods", .property, "0", none, none⟩]
    ∃ a b, items[0]? = some a ∧ items[1]? = some b ∧ a.label = "data" ∧ b.label = "methods" ∧
      a.sortText < b.sortText := by
  obtain ⟨a, b, ha, hb, hdata, hmethods, hless⟩ := (ofProposals_order (.ofText "")).1
    [⟨Bridge.identifier, .alias, "0", none, none⟩] [] [] ⟨"data", .property, "0", none, none⟩
    ⟨"methods", .property, "0", none, none⟩ (by decide) (by decide) rfl
  exact ⟨a, b, ha, hb, hdata, hmethods, hless.mpr (by decide +kernel)⟩

/-- Eleven equal texts: the tenth is sorted behind the eleventh. -/
theorem sortText_not_lt_eleventh :
    let items := ofProposals (.ofText "") (List.replicate 11 ⟨"a", .property, "0", none, none⟩)
    ∃ a b, items[9]? = some a ∧ items[10]? = some b ∧ a.sortText = "09" ∧ b.sortText = "010" ∧
      ¬ a.sortText < b.sortText ∧ b.sortText < a.sortText := by
  refine ⟨ofEntry (.ofText "") ⟨"a", .property, "0", none, none⟩ 9,
    ofEntry (.ofText "") ⟨"a", .property, "0", none, none⟩ 10, ?_, ?_, ?_⟩
  · rw [getElem?_ofProposals]
    rfl
  · rw [getElem?_ofProposals]
    rfl
  · decide +kernel

end CompletionItem

end ComponentHost
