/-
# The language at a place

An editor asks for the language at a place, the library looks it up at an offset.  The way from
an offset to its place and back may end at another offset: inside a character it ends at the
start of the character, behind the carriage return of a line end one byte before it, and past
the text at its end.  This file shows that the language is never another one.

Two offsets lie alike to a region (`Region.Alike`) if it starts at or before both or none, and
ends at or behind both or none.  A region starts behind a `>` and ends before a `<`, and both
bounds are character boundaries; so neither the inside of a character nor a carriage return
separates an offset from the one that the way leads to.

The look-up itself stops at the first region that starts behind the offset.  Since the regions
stand in order and do not touch, that is no different from asking all of them
(`DocumentIndex.languageIn_cases`).
-/
import ComponentHost.Proofs.Positions

namespace ComponentHost

/-! ## 1. Offsets that no bound of a region separates -/

/-- The two offsets lie alike to the region. -/
def Region.Alike (r : Region) (a b : Nat) : Prop :=
  (r.start ≤ a ↔ r.start ≤ b) ∧ (a ≤ r.stop ↔ b ≤ r.stop)

theorem Region.Alike.trans {r : Region} {a b c : Nat} (h₁ : r.Alike a b) (h₂ : r.Alike b c) :
    r.Alike a c :=
  ⟨h₁.1.trans h₂.1, h₁.2.trans h₂.2⟩

namespace Region.Delimited

variable {text : String} {r : Region} {offset : Nat}

/-- An offset lies like the last character boundary at or before it. -/
theorem alike_floor {pre post : List Char} (h : r.Delimited text)
    (hchars : text.toList = pre ++ post) (hle : byteWidth pre ≤ offset)
    (hlt : ∀ c ∈ post.head?, offset < byteWidth pre + c.utf8Size) :
    r.Alike offset (byteWidth pre) := by
  have hpos : ∀ c ∈ post.head?, byteWidth pre < byteWidth pre + c.utf8Size := fun c _ =>
    Nat.lt_add_of_pos_right c.utf8Size_pos
  -- a boundary is at or before the offset if and only if it is at or before the last one there
  have hboundary : ∀ n, String.Pos.Raw.IsValid text ⟨n⟩ → (n ≤ offset ↔ n ≤ byteWidth pre) := by
    intro n hn
    obtain ⟨p, q, hpq, rfl⟩ := split_of_isValid hn
    have hsame := hchars.symm.trans hpq
    rw [byteWidth_le_iff_isPrefix hsame hle hlt,
      byteWidth_le_iff_isPrefix hsame (Nat.le_refl _) hpos]
  refine ⟨hboundary r.start h.start_boundary, fun hstop => Nat.le_trans hle hstop, fun hstop => ?_⟩
  refine Nat.le_of_not_lt fun hbehind => ?_
  -- the region would end at the boundary, where a `<` stands, and the offset is not behind that
  have hle' : r.stop ≤ byteWidth pre :=
    (hboundary r.stop h.stop_boundary).mp (Nat.le_of_lt hbehind)
  have hangle := h.angle
  rw [Nat.le_antisymm hle' hstop] at hangle
  have hhead : post.head? = some '<' :=
    (LineIndex.getElem?_bytes_iff hchars (by decide)).mp hangle
  have hnext := hlt '<' hhead
  rw [Utf8.utf8Size_of_narrow (by decide)] at hnext
  omega

/-- The carriage return at the end of a line separates nothing. -/
theorem alike_return (h : r.Delimited text) (hreturn : LineIndex.BehindReturn text offset) :
    r.Alike offset (offset - 1) := by
  obtain ⟨hpos, hbyte, -⟩ := hreturn
  have hstart : r.start ≠ offset := by
    rintro rfl
    exact absurd (Option.some.inj (h.behind.symm.trans hbyte)) (by decide)
  have hstop : r.stop ≠ offset - 1 := by
    intro heq
    have hangle := h.angle
    rw [heq] at hangle
    exact absurd (Option.some.inj (hangle.symm.trans hbyte)) (by decide)
  constructor <;> omega

end Region.Delimited

/-! ## 2. The look-up -/

namespace DocumentIndex

/-- The look-up only asks how the offset lies to the regions. -/
theorem languageIn_congr {regions : List Region} {a b : Nat} (h : ∀ r ∈ regions, r.Alike a b) :
    languageIn a regions = languageIn b regions := by
  induction regions with
  | nil => rfl
  | cons r rest ih =>
    obtain ⟨hstart, hstop⟩ := h r List.mem_cons_self
    have hbefore : a < r.start ↔ b < r.start := by omega
    simp only [languageIn, hbefore, hstop, ih fun x hx => h x (List.mem_cons_of_mem _ hx)]

/-- **The look-up finds the only region that contains the offset**, if there is one. -/
theorem languageIn_cases {regions : List Region} (offset : Nat)
    (horder : regions.Pairwise fun a b => a.stop < b.start)
    (hspan : ∀ r ∈ regions, r.start ≤ r.stop) :
    (∃ r, regions.filter (·.contains offset) = [r] ∧ languageIn offset regions = r.language) ∨
      regions.filter (·.contains offset) = [] ∧ languageIn offset regions = documentLanguage := by
  induction horder with
  | nil => exact Or.inr ⟨rfl, rfl⟩
  | @cons r rest hbehind _ ih =>
    have hrspan := hspan r List.mem_cons_self
    -- a region behind this one contains nothing up to the end of this one
    have hnone : offset ≤ r.stop → rest.filter (·.contains offset) = [] := by
      intro hstop
      refine List.filter_eq_nil_iff.mpr fun x hx hcontains => ?_
      simp only [Region.contains, Bool.and_eq_true, decide_eq_true_eq] at hcontains
      have := hbehind x hx
      omega
    have hcontains : r.contains offset = true ↔ r.start ≤ offset ∧ offset ≤ r.stop := by
      simp only [Region.contains, Bool.and_eq_true, decide_eq_true_eq]
    rw [languageIn]
    by_cases hbefore : offset < r.start
    · have hout : ¬ r.contains offset = true := fun h => by have := hcontains.mp h; omega
      rw [if_pos hbefore, List.filter_cons, if_neg hout, hnone (by omega)]
      exact Or.inr ⟨rfl, rfl⟩
    · rw [if_neg hbefore]
      by_cases hwithin : offset ≤ r.stop
      · have hin : r.contains offset = true := hcontains.mpr ⟨by omega, hwithin⟩
        rw [if_pos hwithin, List.filter_cons, if_pos hin, hnone hwithin]
        exact Or.inl ⟨r, rfl, rfl⟩
      · have hout : ¬ r.contains offset = true := fun h => hwithin (hcontains.mp h).2
        rw [if_neg hwithin, List.filter_cons, if_neg hout]
        exact ih fun x hx => hspan x (List.mem_cons_of_mem _ hx)

/-- **The language at an offset and at its place is the same**, for every offset of every
document: inside characters, between the signs of a line end, and past the text.  It is the
language of the one block that contains the offset, bounds included, and the language of the
document if none does. -/
theorem languageAtPosition_position (d : Document) (offset : Nat) :
    (ofDocument d).languageAtPosition ((ofDocument d).lines.position offset)
        = (ofDocument d).languageAt offset ∧
      ((∃ r, (Layout.ofText d.text).regions.filter (·.contains offset) = [r] ∧
          (ofDocument d).languageAt offset = r.language) ∨
        (Layout.ofText d.text).regions.filter (·.contains offset) = [] ∧
          (ofDocument d).languageAt offset = "vue") := by
  constructor
  · obtain ⟨pre, post, hchars, hle, hlt⟩ := exists_floor d.text.toList offset
    obtain ⟨before, inside, rfl, hcut⟩ := exists_lineCut hchars
    have hback := LineIndex.offset?_position hcut hle hlt
    have hindex : (ofDocument d).lines = LineIndex.ofText d.text := rfl
    simp only [languageAtPosition, hindex, hback]
    refine (languageIn_congr fun r hr => ?_).symm
    have hr := Layout.delimited_of_mem hr
    have hfloor := hr.alike_floor hchars hle hlt
    split
    · next hreturn => exact hfloor.trans (hr.alike_return hreturn)
    · exact hfloor
  · exact languageIn_cases offset (Layout.pairwise_regions d.text) fun r hr =>
      (Layout.delimited_of_mem hr).start_le_stop

end DocumentIndex

end ComponentHost
