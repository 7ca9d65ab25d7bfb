/-
# Texts with comments and extra commas

A text is written from the tokens of a value: between them stand blanks and comments, and an extra
comma may stand before a closing bracket.  `strict` is to give back a text of the same tokens.

It works in two passes that each keep track of quotes on their own, and neither knows of tokens.
Both are followed token by token here.  The first pass changes nothing but the gaps between tokens:
a comment is gone, and of one that lasts to the end of its line the line end is left.  The second
pass decides for every comma by the next character that is not white space, which after the first
pass is the first character of the next token.  So an extra comma goes because a bracket follows it,
and a comma of the value stays because in a value none does (`Spaced`).  The same property of
values, that two scalars never stand side by side, keeps their tokens apart when there is nothing
left between them.
-/
import ComponentHost.Json.Relaxed
import ComponentHost.Proofs.JsonTokens
import Mathlib.Data.List.Chain
import Mathlib.Data.List.Infix

namespace ComponentHost.Json

/-! ## 1. The tokens of a value

What has to be known of a value is only which tokens can be neighbours in it.  This is a property of
each pair of tokens that follow each other, so it is put together along with the value: two spaced
sequences with a comma between them are spaced, and so is a bracket around them. -/

/-- Token sequences with commas between them. -/
def separated : List (List Token) → List Token
  | [] => []
  | [v] => v
  | v :: w :: r => v ++ .comma :: separated (w :: r)

/-- The token sequences of values. -/
inductive IsValue : List Token → Prop
  | scalar {text : List Char} : IsScalar text → IsValue [.scalar text]
  | array (items : List (List Token)) : (∀ v ∈ items, IsValue v) →
      IsValue (.openArray :: (separated items ++ [.closeArray]))
  | object (members : List (List Char × List Token)) : (∀ m ∈ members, IsString m.1) →
      (∀ m ∈ members, IsValue m.2) →
      IsValue (.openObject ::
        (separated (members.map fun m => .scalar m.1 :: .colon :: m.2) ++ [.closeObject]))

/-- The tokens may stand side by side in a value: no bracket closes after a comma, and two scalars
have something between them. -/
def Adjacent (a b : Token) : Prop :=
  (a = .comma → b.isCloser = false) ∧ (a.isScalar → b.isScalar = false)

/-- What is needed of the tokens of a value. -/
structure Spaced (ts : List Token) : Prop where
  chain : ts.IsChain Adjacent
  valid : ∀ t ∈ ts, t.Valid
  ne_nil : ts ≠ []
  first : ∀ t ∈ ts.head?, t.isCloser = false
  last : ∀ t ∈ ts.getLast?, t ≠ .comma

namespace Spaced

theorem scalar {text : List Char} (h : IsScalar text) : Spaced [.scalar text] where
  chain := List.isChain_singleton _
  valid t ht text' heq := by
    rw [List.mem_singleton.mp ht] at heq
    cases heq
    exact h
  ne_nil := List.cons_ne_nil _ _
  first t ht := by cases ht; rfl
  last t ht := by cases ht; exact fun h => by cases h

theorem valid_mark {t : Token} (h : t.isScalar = false) : t.Valid := by
  rintro text rfl
  cases h

/-- Two sequences with a comma between them. -/
theorem comma {a b : List Token} (ha : Spaced a) (hb : Spaced b) : Spaced (a ++ .comma :: b) where
  chain := by
    rw [List.isChain_append, List.isChain_cons]
    refine ⟨ha.chain, ⟨fun t ht => ⟨fun _ => hb.first t ht, fun h => by cases h⟩, hb.chain⟩, ?_⟩
    intro x hx y hy
    cases hy
    exact ⟨fun _ => rfl, fun _ => rfl⟩
  valid t ht := by
    rcases List.mem_append.mp ht with ht | ht
    · exact ha.valid t ht
    · rcases List.mem_cons.mp ht with rfl | ht
      · exact valid_mark rfl
      · exact hb.valid t ht
  ne_nil := by simp
  first t ht := by
    refine ha.first t ?_
    rwa [List.head?_append_of_ne_nil _ ha.ne_nil] at ht
  last t ht := by
    refine hb.last t ?_
    rwa [List.getLast?_append_of_ne_nil _ (List.cons_ne_nil _ _),
      List.getLast?_cons_of_ne_nil hb.ne_nil] at ht

/-- A name and its value. -/
theorem member {key : List Char} {v : List Token} (hkey : IsString key) (hv : Spaced v) :
    Spaced (.scalar key :: .colon :: v) where
  chain := by
    rw [List.isChain_cons, List.isChain_cons]
    refine ⟨fun t ht => ?_, fun t _ => ⟨fun h => (by cases h), fun h => (by cases h)⟩, hv.chain⟩
    cases ht
    exact ⟨fun _ => rfl, fun _ => rfl⟩
  valid t ht := by
    rcases List.mem_cons.mp ht with rfl | ht
    · exact (scalar (.string hkey)).valid _ (List.mem_singleton.mpr rfl)
    · rcases List.mem_cons.mp ht with rfl | ht
      · exact valid_mark rfl
      · exact hv.valid t ht
  ne_nil := List.cons_ne_nil _ _
  first t ht := by cases ht; rfl
  last t ht := by
    refine hv.last t ?_
    rwa [List.getLast?_cons_of_ne_nil (List.cons_ne_nil _ _),
      List.getLast?_cons_of_ne_nil hv.ne_nil] at ht

/-- Sequences with commas between them, if there are any. -/
theorem separated {vs : List (List Token)} (h : ∀ v ∈ vs, Spaced v) (hne : vs ≠ []) :
    Spaced (separated vs) := by
  induction vs with
  | nil => exact absurd rfl hne
  | cons v r ih =>
    have hv := h v List.mem_cons_self
    cases r with
    | nil => exact hv
    | cons w r =>
      exact hv.comma (ih (fun x hx => h x (List.mem_cons_of_mem v hx)) (List.cons_ne_nil _ _))

/-- **Brackets around sequences with commas between them.**  With no sequence the closing bracket
follows the opening one, which is not a comma; with some it follows the end of a value. -/
theorem enclosed {o c : Token} (ho : o.isScalar = false ∧ o.isCloser = false ∧ o ≠ .comma)
    (hc : c.isScalar = false ∧ c ≠ .comma) {vs : List (List Token)} (h : ∀ v ∈ vs, Spaced v) :
    Spaced (o :: (Json.separated vs ++ [c])) where
  chain := by
    rw [List.isChain_cons]
    have hopens : ∀ t, Adjacent o t := fun t =>
      ⟨fun h => absurd h ho.2.2, fun h => absurd (ho.1.symm.trans h) (by decide)⟩
    refine ⟨fun t _ => hopens t, ?_⟩
    by_cases hne : vs = []
    · subst hne
      exact List.isChain_singleton _
    · have hs := separated h hne
      rw [List.isChain_append]
      refine ⟨hs.chain, List.isChain_singleton _, fun x hx y hy => ?_⟩
      cases hy
      exact ⟨fun hcomma => absurd hcomma (hs.last x hx), fun _ => hc.1⟩
  valid t ht := by
    rcases List.mem_cons.mp ht with rfl | ht
    · exact valid_mark ho.1
    · rcases List.mem_append.mp ht with ht | ht
      · have hne : vs ≠ [] := by
          rintro rfl
          cases ht
        exact (separated h hne).valid t ht
      · rw [List.mem_singleton.mp ht]
        exact valid_mark hc.1
  ne_nil := List.cons_ne_nil _ _
  first t ht := by cases ht; exact ho.2.1
  last t ht := by
    rw [← List.cons_append, List.getLast?_concat] at ht
    cases ht
    exact hc.2

end Spaced

/-- **The tokens of a value are spaced.** -/
theorem IsValue.spaced {ts : List Token} (h : IsValue ts) : Spaced ts := by
  induction h with
  | scalar h => exact .scalar h
  | array items _ ih => exact .enclosed (by decide) (by decide) ih
  | object members hkeys _ ih =>
    refine .enclosed (by decide) (by decide) fun v hv => ?_
    obtain ⟨m, hm, rfl⟩ := List.mem_map.mp hv
    exact .member (hkeys m hm) (ih m hm)

namespace Relaxed

/-! ## 2. Written texts

How a value may be written.  The extra comma belongs to the token that it stands before, which must
be a closing bracket; it cannot be written anywhere else.  From a written value its text is
computed, and also what should be left of it after each of the passes. -/

/-- What may stand between tokens. -/
inductive Trivia where
  | blank (c : Char) (h : Reader.isBlank c)
  /-- A comment that lasts to the end of its line. -/
  | line (body : List Char) (h : '\n' ∉ body)
  /-- A comment that lasts to its closing mark. -/
  | block (body : List Char) (h : ¬ ['*', '/'] <:+: body)

namespace Trivia

def chars : Trivia → List Char
  | blank c _ => [c]
  | line body _ => '/' :: '/' :: (body ++ ['\n'])
  | block body _ => '/' :: '*' :: (body ++ ['*', '/'])

/-- What is left without comments. -/
def kept : Trivia → List Char
  | blank c _ => [c]
  | line _ _ => ['\n']
  | block _ _ => []

def isBlank : Trivia → Bool
  | blank _ _ => true
  | _ => false

end Trivia

/-- What stands between two tokens. -/
abbrev Gap := List Trivia

namespace Gap

def chars (g : Gap) : List Char := g.flatMap Trivia.chars

/-- What is left without comments. -/
def kept (g : Gap) : List Char := g.flatMap Trivia.kept

end Gap

/-- A token with what stands before it: a gap, and before that, if it closes an array or an object,
maybe an extra comma with a gap of its own. -/
structure Placed where
  extra : Option Gap := none
  gap : Gap
  token : Token
  closes : extra.isSome → token.isCloser := by decide

namespace Placed

def chars (p : Placed) : List Char :=
  (p.extra.map fun g => g.chars ++ [',']).getD [] ++ (p.gap.chars ++ p.token.chars)

/-- What is left without comments. -/
def uncommented (p : Placed) : List Char :=
  (p.extra.map fun g => g.kept ++ [',']).getD [] ++ (p.gap.kept ++ p.token.chars)

/-- The blanks that are left before the token, without comments and without the extra comma. -/
def blanks (p : Placed) : List Char := (p.extra.map Gap.kept).getD [] ++ p.gap.kept

/-- What is left without comments and without the extra comma. -/
def stripped (p : Placed) : List Char := p.blanks ++ p.token.chars

end Placed

/-- A value, written with blanks, comments and extra commas.  At its end there may be a comment that
lasts to the end of the text. -/
structure Written where
  items : List Placed
  gap : Gap
  trailing : Option { body : List Char // '\n' ∉ body } := none
  value : IsValue (items.map Placed.token)

namespace Written

def text (w : Written) : String :=
  String.ofList (w.items.flatMap Placed.chars ++
    (w.gap.chars ++ (w.trailing.map fun b => '/' :: '/' :: b.1).getD []))

/-- The tokens of the value, without extra commas. -/
def tokens (w : Written) : List Token := w.items.map Placed.token

/-- No comment and no extra comma. -/
def Plain (w : Written) : Prop :=
  (∀ p ∈ w.items, p.extra = none ∧ p.gap.all Trivia.isBlank) ∧ w.gap.all Trivia.isBlank ∧
    w.trailing = none

end Written

/-! ## 3. The first pass

The first pass is in one of four states: outside of everything, in a string, in a comment to the end
of the line, in a comment with a closing mark.  One lemma for each says how it comes out of the
state, and what it has written by then. -/

/-- What both passes see of the inside of a string: a backslash hides the character after it, and
no other quote or backslash is in it. -/
inductive Hiding : List Char → Prop
  | nil : Hiding []
  | plain {c : Char} {r : List Char} : c ≠ '"' → c ≠ '\\' → Hiding r → Hiding (c :: r)
  | escape {c : Char} {r : List Char} : Hiding r → Hiding ('\\' :: c :: r)

/-- In a string of a value all that looks like a comment or an end is hidden. -/
theorem hiding_of_isStringBody {body : List Char} (h : IsStringBody body) : Hiding body := by
  induction h with
  | nil => exact .nil
  | plain _ hquote hslash _ ih => exact .plain hquote hslash ih
  | escape _ _ ih => exact .escape ih
  | @unicode a b c d r hhex _ ih =>
    have hdigit : ∀ x ∈ [a, b, c, d], x ≠ '"' ∧ x ≠ '\\' := by
      intro x hx
      have hsome := hhex x hx
      constructor
      · rintro rfl
        exact absurd hsome (by decide)
      · rintro rfl
        exact absurd hsome (by decide)
    obtain ⟨ha, hb, hc, hd⟩ : (a ≠ '"' ∧ a ≠ '\\') ∧ (b ≠ '"' ∧ b ≠ '\\') ∧
        (c ≠ '"' ∧ c ≠ '\\') ∧ (d ≠ '"' ∧ d ≠ '\\') := by simpa using hdigit
    exact .escape (.plain ha.1 ha.2 (.plain hb.1 hb.2 (.plain hc.1 hc.2 (.plain hd.1 hd.2 ih))))

/-- Outside, all but a quote and a slash is copied. -/
theorem uncommented_other {c : Char} (hquote : c ≠ '"') (hslash : c ≠ '/') (r : List Char) :
    uncommented (c :: r) = c :: uncommented r := by
  rw [uncommented]
  · exact hquote
  · exact fun _ hc => absurd hc hslash
  · exact fun _ hc => absurd hc hslash

theorem uncommented_plain {cs : List Char} (h : ∀ c ∈ cs, c ≠ '"' ∧ c ≠ '/') (r : List Char) :
    uncommented (cs ++ r) = cs ++ uncommented r := by
  induction cs with
  | nil => rfl
  | cons c cs ih =>
    obtain ⟨hquote, hslash⟩ := h c List.mem_cons_self
    rw [List.cons_append, uncommented_other hquote hslash,
      ih fun x hx => h x (List.mem_cons_of_mem c hx)]
    rfl

/-- A string is copied up to its closing quote. -/
theorem quoted_body {body : List Char} (h : Hiding body) (r : List Char) :
    quoted (body ++ '"' :: r) = body ++ '"' :: uncommented r := by
  induction h with
  | nil => rfl
  | @plain c b hquote hslash _ ih =>
    rw [List.cons_append, quoted, ih]
    · rfl
    · exact fun _ _ hc => absurd hc hslash
    · exact hquote
  | @escape c b _ ih =>
    rw [List.cons_append, List.cons_append, quoted, ih]
    rfl

/-- A comment to the end of the line is dropped, and the line end is kept. -/
theorem lineComment_body {body : List Char} (h : '\n' ∉ body) (r : List Char) :
    lineComment (body ++ '\n' :: r) = '\n' :: uncommented r := by
  induction body with
  | nil => rfl
  | cons c body ih =>
    obtain ⟨hc, hbody⟩ := not_or.mp fun hmem => h (List.mem_cons.mpr hmem)
    rw [List.cons_append, lineComment, ih hbody]
    exact fun h => hc h.symm

/-- A comment at the end of the text need not have a line end. -/
theorem lineComment_end {body : List Char} (h : '\n' ∉ body) : lineComment body = [] := by
  induction body with
  | nil => rfl
  | cons c body ih =>
    obtain ⟨hc, hbody⟩ := not_or.mp fun hmem => h (List.mem_cons.mpr hmem)
    rw [lineComment, ih hbody]
    exact fun h => hc h.symm

/-- A comment with a closing mark is dropped with the mark. -/
theorem blockComment_body {body : List Char} (h : ¬ ['*', '/'] <:+: body) (r : List Char) :
    blockComment (body ++ '*' :: '/' :: r) = uncommented r := by
  induction body with
  | nil => rfl
  | cons c body ih =>
    have hbody : ¬ ['*', '/'] <:+: body := fun hin => h (hin.trans (List.suffix_cons c body).isInfix)
    rw [List.cons_append, blockComment, ih hbody]
    -- a closing mark here would be in the body, or start with its last character
    rintro r' rfl heq
    cases body with
    | nil => exact absurd (List.cons.inj heq).1 (by decide)
    | cons x body =>
      obtain rfl : x = '/' := (List.cons.inj heq).1
      exact h ⟨[], body, rfl⟩

/-- Can the character be part of a number or a word? -/
def isPlain (c : Char) : Bool := c.isDigit || c.isAlpha || ['.', '+', '-'].contains c

theorem plain_of_isDigits {ds : List Char} (h : IsDigits ds) : ∀ c ∈ ds, isPlain c := by
  intro c hc
  rw [isPlain, h.2 c hc, Bool.true_or, Bool.true_or]

/-- Numbers are made of digits, a point, signs and a letter. -/
theorem plain_of_isUnsigned {text : List Char} (h : IsUnsigned text) : ∀ c ∈ text, isPlain c := by
  obtain @⟨whole, fraction, exponent, hwhole, hfraction, hexponent⟩ := h
  intro c hc
  rcases List.mem_append.mp hc with hc | hc
  · rcases hwhole with rfl | ⟨hdigits, -⟩
    · rw [List.mem_singleton.mp hc]
      decide
    · exact plain_of_isDigits hdigits c hc
  rcases List.mem_append.mp hc with hc | hc
  · rcases hfraction with rfl | ⟨ds, hds, rfl⟩
    · cases hc
    · rcases List.mem_cons.mp hc with rfl | hc
      · decide
      · exact plain_of_isDigits hds c hc
  · rcases hexponent with rfl | ⟨mark, sign, ds, hmark, hsign, hds, rfl⟩
    · cases hc
    · simp only [List.mem_cons, List.not_mem_nil, or_false] at hmark hsign
      rcases List.mem_cons.mp hc with rfl | hc
      · rcases hmark with rfl | rfl <;> decide
      · rcases List.mem_append.mp hc with hc | hc
        · rcases hsign with rfl | rfl | rfl
          · cases hc
          · rw [List.mem_singleton.mp hc]
            decide
          · rw [List.mem_singleton.mp hc]
            decide
        · exact plain_of_isDigits hds c hc

/-- A scalar that is not a string is a number or a word. -/
theorem isString_or_plain {text : List Char} (h : IsScalar text) :
    IsString text ∨ ∀ c ∈ text, isPlain c := by
  cases h with
  | string h => exact Or.inl h
  | number h =>
    rcases h with hnumber | ⟨r, hnumber, rfl⟩
    · exact Or.inr (plain_of_isUnsigned hnumber)
    · refine Or.inr fun c hc => ?_
      rcases List.mem_cons.mp hc with rfl | hc
      · decide
      · exact plain_of_isUnsigned hnumber c hc
  | null => exact Or.inr (List.all_eq_true.mp rfl)
  | true => exact Or.inr (List.all_eq_true.mp rfl)
  | false => exact Or.inr (List.all_eq_true.mp rfl)

theorem ne_of_isPlain {c x : Char} (h : isPlain c) (hx : isPlain x = false) : c ≠ x := by
  rintro rfl
  exact absurd (h.symm.trans hx) (by decide)

/-- Each sort of what may stand between tokens. -/
theorem uncommented_trivia (t : Trivia) (r : List Char) :
    uncommented (t.chars ++ r) = t.kept ++ uncommented r := by
  cases t with
  | blank c h =>
    rcases Reader.isBlank_cases h with rfl | rfl | rfl | rfl <;> rfl
  | line body h =>
    rw [Trivia.chars, List.cons_append, List.cons_append, List.append_assoc, uncommented]
    exact lineComment_body h r
  | block body h =>
    rw [Trivia.chars, List.cons_append, List.cons_append, List.append_assoc, uncommented]
    exact blockComment_body h r

theorem uncommented_gap (g : Gap) (r : List Char) :
    uncommented (g.chars ++ r) = g.kept ++ uncommented r := by
  induction g with
  | nil => rfl
  | cons t g ih =>
    rw [Gap.chars, List.flatMap_cons, List.append_assoc, uncommented_trivia]
    show t.kept ++ uncommented (Gap.chars g ++ r) = _
    rw [ih, ← List.append_assoc]
    rfl

/-- **The first pass leaves tokens alone.** -/
theorem uncommented_token {t : Token} (h : t.Valid) (r : List Char) :
    uncommented (t.chars ++ r) = t.chars ++ uncommented r := by
  cases t with
  | scalar text =>
    show uncommented (text ++ r) = text ++ uncommented r
    rcases isString_or_plain (h text rfl) with ⟨body, hbody, rfl⟩ | hplain
    · rw [List.cons_append, List.cons_append, List.append_assoc, uncommented]
      show '"' :: quoted (body ++ '"' :: r) = _
      rw [quoted_body (hiding_of_isStringBody hbody), List.cons_append, List.append_assoc]
      rfl
    · refine uncommented_plain (fun c hc => ?_) r
      exact ⟨ne_of_isPlain (hplain c hc) (by decide), ne_of_isPlain (hplain c hc) (by decide)⟩
  | _ => rfl

/-- A token with its gap, and with its extra comma.  The comma is copied by this pass. -/
theorem uncommented_placed {p : Placed} (h : p.token.Valid) (r : List Char) :
    uncommented (p.chars ++ r) = p.uncommented ++ uncommented r := by
  have hrest : uncommented (p.gap.chars ++ p.token.chars ++ r)
      = p.gap.kept ++ p.token.chars ++ uncommented r := by
    rw [List.append_assoc, uncommented_gap, uncommented_token h, List.append_assoc]
  unfold Placed.chars Placed.uncommented
  cases p.extra with
  | none => exact hrest
  | some g =>
    show uncommented (g.chars ++ [','] ++ (p.gap.chars ++ p.token.chars) ++ r)
      = g.kept ++ [','] ++ (p.gap.kept ++ p.token.chars) ++ uncommented r
    rw [List.append_assoc, List.append_assoc, uncommented_gap, List.singleton_append,
      uncommented_other (by decide) (by decide), hrest]
    simp only [List.append_assoc, List.cons_append, List.nil_append]

/-- **The first pass, over all tokens.** -/
theorem uncommented_items {items : List Placed} (h : ∀ p ∈ items, p.token.Valid) (r : List Char) :
    uncommented (items.flatMap Placed.chars ++ r)
      = items.flatMap Placed.uncommented ++ uncommented r := by
  induction items with
  | nil => rfl
  | cons p items ih =>
    rw [List.flatMap_cons, List.flatMap_cons, List.append_assoc,
      uncommented_placed (h p List.mem_cons_self), ih fun q hq => h q (List.mem_cons_of_mem p hq),
      List.append_assoc]

/-! ## 4. The second pass

The second pass has two states, in a string and outside.  Outside it looks ahead at every comma,
past white space, for a closing bracket.  The text before it is that of the first pass, so between
two tokens there is nothing but blanks, and the look ends at a token. -/

theorem withoutCommas_other {c : Char} (hquote : c ≠ '"') (hcomma : c ≠ ',') (r : List Char) :
    withoutCommas (c :: r) = c :: withoutCommas r := by
  rw [withoutCommas]
  · exact hquote
  · exact hcomma

theorem withoutCommas_comma (r : List Char) :
    withoutCommas (',' :: r) = if closes r then withoutCommas r else ',' :: withoutCommas r := by
  rw [withoutCommas]

theorem withoutCommas_plain {cs : List Char} (h : ∀ c ∈ cs, c ≠ '"' ∧ c ≠ ',') (r : List Char) :
    withoutCommas (cs ++ r) = cs ++ withoutCommas r := by
  induction cs with
  | nil => rfl
  | cons c cs ih =>
    obtain ⟨hquote, hcomma⟩ := h c List.mem_cons_self
    rw [List.cons_append, withoutCommas_other hquote hcomma,
      ih fun x hx => h x (List.mem_cons_of_mem c hx)]
    rfl

/-- A string is copied, with the commas in it. -/
theorem quotedCommas_body {body : List Char} (h : Hiding body) (r : List Char) :
    quotedCommas (body ++ '"' :: r) = body ++ '"' :: withoutCommas r := by
  induction h with
  | nil => rfl
  | @plain c b hquote hslash _ ih =>
    rw [List.cons_append, quotedCommas, ih]
    · rfl
    · exact fun _ _ hc => absurd hc hslash
    · exact hquote
  | @escape c b _ ih =>
    rw [List.cons_append, List.cons_append, quotedCommas, ih]
    rfl

/-- **The second pass leaves tokens other than commas alone.** -/
theorem withoutCommas_token {t : Token} (h : t.Valid) (hcomma : t ≠ .comma) (r : List Char) :
    withoutCommas (t.chars ++ r) = t.chars ++ withoutCommas r := by
  cases t with
  | scalar text =>
    show withoutCommas (text ++ r) = text ++ withoutCommas r
    rcases isString_or_plain (h text rfl) with ⟨body, hbody, rfl⟩ | hplain
    · rw [List.cons_append, List.cons_append, List.append_assoc, withoutCommas]
      show '"' :: quotedCommas (body ++ '"' :: r) = _
      rw [quotedCommas_body (hiding_of_isStringBody hbody), List.cons_append, List.append_assoc]
      rfl
    · refine withoutCommas_plain (fun c hc => ?_) r
      exact ⟨ne_of_isPlain (hplain c hc) (by decide), ne_of_isPlain (hplain c hc) (by decide)⟩
  | comma => exact absurd rfl hcomma
  | _ => rfl

theorem withoutCommas_blanks {bs : List Char} (h : ∀ c ∈ bs, Reader.isBlank c) (r : List Char) :
    withoutCommas (bs ++ r) = bs ++ withoutCommas r := by
  refine withoutCommas_plain (fun c hc => ?_) r
  rcases Reader.isBlank_cases (h c hc) with rfl | rfl | rfl | rfl <;> decide

/-- What is left of a gap are blanks. -/
theorem isBlank_of_mem_kept {g : Gap} {c : Char} (h : c ∈ g.kept) : Reader.isBlank c := by
  obtain ⟨t, -, hc⟩ := List.mem_flatMap.mp h
  cases t with
  | blank x hx =>
    rw [List.mem_singleton.mp hc]
    exact hx
  | line body _ =>
    rw [List.mem_singleton.mp hc]
    decide
  | block body _ => cases hc

theorem isBlank_of_mem_blanks {p : Placed} {c : Char} (h : c ∈ p.blanks) : Reader.isBlank c := by
  rcases List.mem_append.mp h with hextra | hgap
  · cases hp : p.extra with
    | none =>
      rw [hp] at hextra
      cases hextra
    | some g =>
      rw [hp] at hextra
      exact isBlank_of_mem_kept hextra
  · exact isBlank_of_mem_kept hgap

/-- The look at a comma goes past blanks. -/
theorem closes_blanks {bs : List Char} (h : ∀ c ∈ bs, Reader.isBlank c) (r : List Char) :
    closes (bs ++ r) = closes r := by
  have hspace : ∀ c ∈ bs, isSpace c := by
    intro c hc
    rcases Reader.isBlank_cases (h c hc) with rfl | rfl | rfl | rfl <;> decide
  rw [closes, List.dropWhile_append_of_pos hspace]
  rfl

/-- **Before a token it is the token that decides.** -/
theorem closes_token {t : Token} (h : t.Valid) (r : List Char) :
    closes (t.chars ++ r) = t.isCloser := by
  cases t with
  | scalar text =>
    obtain ⟨c, cs, rfl, hc⟩ := Token.exists_head_of_isScalar (h text rfl)
    have hne : ∀ x, Token.startsScalar x = false → (c == x) = false := by
      intro x hx
      refine beq_eq_false_iff_ne.mpr ?_
      rintro rfl
      exact absurd (hc.symm.trans hx) (by decide)
    have hspace : ¬ isSpace c := by
      intro hs
      have hcases : c = ' ' ∨ c = '\t' ∨ c = '\n' ∨ c = '\x0c' ∨ c = '\r' := by
        simpa [isSpace, or_assoc] using hs
      rcases hcases with rfl | rfl | rfl | rfl | rfl <;> exact absurd hc (by decide)
    show closes (c :: (cs ++ r)) = false
    rw [closes, List.dropWhile_cons_of_neg hspace]
    show (c == '}' || c == ']') = false
    rw [hne '}' (by decide), hne ']' (by decide)]
    rfl
  | _ => rfl

/-- **A placed token in the second pass.**  Its extra comma goes; the token itself stays, if no
bracket closes after a comma. -/
theorem withoutCommas_placed {p : Placed} (h : p.token.Valid) {r : List Char}
    (hcomma : p.token = .comma → closes r = false) :
    withoutCommas (p.uncommented ++ r) = p.stripped ++ withoutCommas r := by
  have htoken : withoutCommas (p.token.chars ++ r) = p.token.chars ++ withoutCommas r := by
    by_cases heq : p.token = .comma
    · rw [heq]
      show withoutCommas (',' :: r) = ',' :: withoutCommas r
      rw [withoutCommas_comma, if_neg (by rw [hcomma heq]; decide)]
    · exact withoutCommas_token h heq r
  have hgap : ∀ c ∈ p.gap.kept, Reader.isBlank c := fun c => isBlank_of_mem_kept
  unfold Placed.uncommented Placed.stripped Placed.blanks
  cases hextra : p.extra with
  | none =>
    show withoutCommas (p.gap.kept ++ p.token.chars ++ r) = p.gap.kept ++ p.token.chars ++ _
    rw [List.append_assoc, withoutCommas_blanks hgap, htoken, List.append_assoc]
  | some g =>
    have hcloses : closes (p.gap.kept ++ (p.token.chars ++ r)) = true := by
      rw [closes_blanks hgap, closes_token h]
      exact p.closes (by rw [hextra]; rfl)
    show withoutCommas (g.kept ++ [','] ++ (p.gap.kept ++ p.token.chars) ++ r)
      = g.kept ++ p.gap.kept ++ p.token.chars ++ withoutCommas r
    simp only [List.append_assoc, List.cons_append, List.nil_append]
    rw [withoutCommas_blanks fun c => isBlank_of_mem_kept, withoutCommas_comma, if_pos hcloses,
      withoutCommas_blanks hgap, htoken]

/-- A bracket that closes is next only before a token that is one.  After the last token there is a
gap and nothing else, so none closes there. -/
theorem closes_items {p : Placed} {items : List Placed}
    (hchain : ((p :: items).map Placed.token).IsChain Adjacent)
    (hvalid : ∀ q ∈ items, q.token.Valid) (hp : p.token = .comma) (g : Gap) :
    closes (items.flatMap Placed.uncommented ++ g.kept) = false := by
  cases items with
  | nil =>
    have hend : closes (g.kept ++ []) = closes [] := closes_blanks (fun c => isBlank_of_mem_kept) []
    rw [List.append_nil] at hend
    exact hend
  | cons q items =>
    have hopen : q.token.isCloser = false := (List.isChain_cons_cons.mp hchain).1.1 hp
    have hnone : q.extra = none := by
      refine Option.not_isSome_iff_eq_none.mp fun hsome => ?_
      exact absurd (hopen.symm.trans (q.closes hsome)) (by decide)
    rw [List.flatMap_cons, Placed.uncommented, hnone]
    show closes (q.gap.kept ++ q.token.chars ++ items.flatMap Placed.uncommented ++ g.kept) = false
    rw [List.append_assoc, List.append_assoc, closes_blanks fun c => isBlank_of_mem_kept,
      closes_token (hvalid q List.mem_cons_self), hopen]

/-- **The second pass, over all tokens.** -/
theorem withoutCommas_items {items : List Placed}
    (hchain : (items.map Placed.token).IsChain Adjacent)
    (hvalid : ∀ p ∈ items, p.token.Valid) (g : Gap) :
    withoutCommas (items.flatMap Placed.uncommented ++ g.kept)
      = items.flatMap Placed.stripped ++ g.kept := by
  induction items with
  | nil =>
    have hend : withoutCommas (g.kept ++ []) = g.kept ++ withoutCommas [] :=
      withoutCommas_blanks (fun c => isBlank_of_mem_kept) []
    rw [List.append_nil] at hend
    exact hend.trans (List.append_nil _)
  | cons p items ih =>
    have hvalid' : ∀ q ∈ items, q.token.Valid := fun q hq => hvalid q (List.mem_cons_of_mem p hq)
    rw [List.flatMap_cons, List.flatMap_cons, List.append_assoc,
      withoutCommas_placed (hvalid p List.mem_cons_self)
        fun hp => closes_items hchain hvalid' hp g,
      ih hchain.tail hvalid', List.append_assoc]

/-! ## 5. The tokens that are left

What both passes leave is divided into tokens again.  Dropping a comment may leave two tokens with
nothing between them, and they must not grow together: two marks cannot, a mark ends a scalar, and
two scalars are never neighbours. -/

/-- Blanks break off what stands before them. -/
theorem breaks_blanks {bs r : List Char} (h : ∀ c ∈ bs, Reader.isBlank c) (hr : Breaks r) :
    Breaks (bs ++ r) := by
  cases bs with
  | nil => exact hr
  | cons b bs =>
    intro c hc
    cases hc
    exact Or.inl (h _ List.mem_cons_self)

/-- Marks break off what stands before them. -/
theorem breaks_mark {t : Token} (h : t.isScalar = false) (r : List Char) :
    Breaks (t.chars ++ r) := by
  cases t with
  | scalar text => cases h
  | _ =>
    intro c hc
    cases hc
    exact Or.inr (by decide)

/-- What follows a scalar does not continue it. -/
theorem breaks_items {p : Placed} {items : List Placed}
    (hchain : ((p :: items).map Placed.token).IsChain Adjacent) (hp : p.token.isScalar) (g : Gap) :
    Breaks (items.flatMap Placed.stripped ++ g.kept) := by
  cases items with
  | nil =>
    have hend : Breaks (g.kept ++ []) := breaks_blanks (fun c => isBlank_of_mem_kept)
      (fun c hc => by cases hc)
    rwa [List.append_nil] at hend
  | cons q items =>
    have hmark : q.token.isScalar = false := (List.isChain_cons_cons.mp hchain).1.2 hp
    rw [List.flatMap_cons, Placed.stripped, List.append_assoc, List.append_assoc]
    exact breaks_blanks (fun c => isBlank_of_mem_blanks) (breaks_mark hmark _)

/-- **What is left has the tokens.** -/
theorem lex_items {items : List Placed} (hchain : (items.map Placed.token).IsChain Adjacent)
    (hvalid : ∀ p ∈ items, p.token.Valid) (g : Gap) :
    Token.lex (items.flatMap Placed.stripped ++ g.kept) = some (items.map Placed.token) := by
  induction items with
  | nil =>
    have hend : Token.lex (g.kept ++ []) = Token.lex [] :=
      Token.lex_blanks (fun c => isBlank_of_mem_kept) []
    rw [List.append_nil] at hend
    exact hend.trans Token.lex_nil
  | cons p items ih =>
    have hvalid' : ∀ q ∈ items, q.token.Valid := fun q hq => hvalid q (List.mem_cons_of_mem p hq)
    rw [List.flatMap_cons, Placed.stripped, List.append_assoc, List.append_assoc,
      Token.lex_blanks fun c => isBlank_of_mem_blanks,
      Token.lex_append (hvalid p List.mem_cons_self) fun hp => breaks_items hchain hp g,
      ih hchain.tail hvalid']
    rfl

/-! ## 6. The strict text -/

/-- **The strict text**, character by character. -/
theorem toList_strict (w : Written) :
    (strict w.text).toList = w.items.flatMap Placed.stripped ++ w.gap.kept := by
  have hspaced := w.value.spaced
  have hvalid : ∀ p ∈ w.items, p.token.Valid := fun p hp =>
    hspaced.valid _ (List.mem_map_of_mem hp)
  have htrailing : uncommented ((w.trailing.map fun b => '/' :: '/' :: b.1).getD []) = [] := by
    cases w.trailing with
    | none => rfl
    | some b => exact lineComment_end b.2
  rw [strict, Written.text, String.toList_ofList, String.toList_ofList, uncommented_items hvalid,
    uncommented_gap, htrailing, List.append_nil, withoutCommas_items hspaced.chain hvalid]

/-- Without comments nothing is lost of a gap. -/
theorem kept_eq_chars {g : Gap} (h : g.all Trivia.isBlank) : g.kept = g.chars := by
  refine List.flatMap_congr fun t ht => ?_
  have hblank := List.all_eq_true.mp h t ht
  cases t with
  | blank c _ => rfl
  | line body _ => cases hblank
  | block body _ => cases hblank

/-- **The strict text has the tokens of the value**: comments and extra commas are gone, and every
token is as it was written.  A text without comments and extra commas is strict already. -/
theorem lex_strict (w : Written) :
    Token.lex (strict w.text).toList = some w.tokens ∧ (w.Plain → strict w.text = w.text) := by
  have hspaced := w.value.spaced
  constructor
  · rw [toList_strict]
    exact lex_items hspaced.chain (fun p hp => hspaced.valid _ (List.mem_map_of_mem hp)) w.gap
  · rintro ⟨hitems, hgap, htrailing⟩
    have hchars : w.items.flatMap Placed.stripped = w.items.flatMap Placed.chars := by
      refine List.flatMap_congr fun p hp => ?_
      obtain ⟨hextra, hblank⟩ := hitems p hp
      rw [Placed.stripped, Placed.blanks, Placed.chars, hextra, kept_eq_chars hblank]
      rfl
    refine String.toList_injective ?_
    rw [toList_strict, Written.text, String.toList_ofList, hchars, kept_eq_chars hgap, htrailing]
    exact congrArg _ (List.append_nil _).symm

/-- An array with a number and a string that looks like a comment and an extra comma. -/
theorem isValue_lookalike :
    IsValue [.openArray, .scalar ['-', '1'], .comma,
      .scalar ['"', '\\', '"', '/', '/', ',', ']', '"'], .closeArray] := by
  refine .array [[.scalar ['-', '1']], [.scalar ['"', '\\', '"', '/', '/', ',', ']', '"']]] ?_
  intro v hv
  simp only [List.mem_cons, List.not_mem_nil, or_false] at hv
  rcases hv with rfl | rfl
  · refine .scalar (.number (Or.inr ⟨['1'], ?_, rfl⟩))
    exact @IsUnsigned.mk ['1'] [] [] (Or.inr ⟨⟨by decide, List.all_eq_true.mp rfl⟩, by decide⟩)
      (Or.inl rfl) (Or.inl rfl)
  · refine .scalar (.string ⟨['\\', '"', '/', '/', ',', ']'], ?_, rfl⟩)
    refine .escape (by decide) ?_
    refine .plain (by decide) (by decide) (by decide) ?_
    refine .plain (by decide) (by decide) (by decide) ?_
    refine .plain (by decide) (by decide) (by decide) ?_
    exact .plain (by decide) (by decide) (by decide) .nil

/-- The array with comments in every gap, one of them to the end of the text, and an extra comma
between two of them; and the same array without any. -/
theorem lex_strict_commented :
    let note : Trivia := .block ['/', ',', ']', '*'] (by decide)
    let line : Trivia := .line ['"', '*', '/'] (by decide)
    let word : List Char := ['"', '\\', '"', '/', '/', ',', ']', '"']
    let w : Written :=
      { items := [{ gap := [line], token := .openArray },
          { gap := [note], token := .scalar ['-', '1'] }, { gap := [note], token := .comma },
          { gap := [line, note], token := .scalar word },
          { extra := some [note], gap := [line], token := .closeArray }]
        gap := [note]
        trailing := some ⟨['e', 'n', 'd'], by decide⟩
        value := isValue_lookalike }
    let plain : Written :=
      { items := [{ gap := [], token := .openArray },
          { gap := [], token := .scalar ['-', '1'] }, { gap := [], token := .comma },
          { gap := [.blank ' ' rfl], token := .scalar word },
          { gap := [], token := .closeArray }]
        gap := [.blank '\n' rfl]
        value := isValue_lookalike }
    Token.lex (strict w.text).toList
        = some [.openArray, .scalar ['-', '1'], .comma, .scalar word, .closeArray] ∧
      plain.Plain ∧ strict plain.text = plain.text := by
  intro note line word w plain
  have hplain : plain.Plain := by
    refine ⟨fun p hp => ?_, rfl, rfl⟩
    simp only [plain, List.mem_cons, List.not_mem_nil, or_false] at hp
    rcases hp with rfl | rfl | rfl | rfl | rfl <;> exact ⟨rfl, rfl⟩
  exact ⟨(lex_strict w).1, hplain, (lex_strict plain).2 hplain⟩

end Relaxed

end ComponentHost.Json
