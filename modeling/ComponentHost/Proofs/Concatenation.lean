/-
# Documents behind each other

The scan of a document looks ahead: for the end of a comment, of a value, of a block, and for the
character that shows where a name has ended.  If the document ends with a line break, none of
these looks past its end, as long as the scan succeeds: no word that the scanners look for has a
line break in it, so there is always a character that ends the search (`Cursor.EndsLine.settled`).

So a document that scans and ends its last line can have anything behind it.  The blocks of the
whole are its own, followed by those that the rest has by itself (`Block.scan?_extend`); by
`Block.scan?_shift` these are the blocks of a second document, at later offsets.
-/
import ComponentHost.Proofs.Lookahead
import ComponentHost.Proofs.Shifting

namespace ComponentHost

/-! ## 1. Texts that end a line -/

/-- The last character that is left is a line break. -/
def Cursor.EndsLine (c : Cursor) : Prop := c.rest.getLast? = some '\n'

theorem Cursor.EndsLine.settled {c : Cursor} (h : c.EndsLine) (more : List Char) :
    Block.Settled more c := Block.settled_of_last h (by decide) (by decide) more

namespace Block

variable {c : Cursor}

/-- Where no further tag follows, the scan goes on with the added text. -/
theorem scanStep_done_extend (more : List Char) (h : scanStep c = .done) :
    scanStep (c.extend more) = scanStep ⟨c.limit, more⟩ := by
  rw [scanStep, nextAngle_seam (rest_nextAngle_of_done h), scanStep]

/-- **Behind a document that scans and ends its last line, the scan starts anew.** -/
theorem scan?_extend (more : List Char) {blocks : List Block} (hc : c.EndsLine)
    (h : scan? c = some blocks) :
    scan? (c.extend more) = (scan? ⟨c.limit, more⟩).map (blocks ++ ·) := by
  have hsettled := hc.settled more
  clear hc
  induction c using Cursor.induction_on_rest generalizing blocks with
  | step c ih =>
    rw [scan?_eq] at h
    cases hs : scanStep c with
    | fail =>
      rw [hs] at h
      cases h
    | done =>
      rw [hs] at h
      cases h
      have hsame : scan? (c.extend more) = scan? ⟨c.limit, more⟩ := by
        rw [scan?_eq, scan?_eq ⟨c.limit, more⟩, scanStep_done_extend more hs]
      rw [hsame]
      cases scan? ⟨c.limit, more⟩ <;> rfl
    | next found after =>
      rw [hs] at h
      obtain ⟨others, hothers, rfl⟩ := Option.map_eq_some_iff.mp h
      have hreach := reaches_scanStep hs
      rw [scan?_eq, scanStep_next_extend hsettled hs]
      dsimp only
      rw [ih after (length_scanStep_lt hs) hothers (hsettled.of_reaches hreach), hreach.limit_eq,
        Option.map_map]
      refine congrArg (fun f => Option.map f _) ?_
      funext rest
      exact (List.append_assoc found others rest).symm

end Block

/-! ## 2. Documents -/

/-- A text behind another starts where the other ends. -/
theorem Cursor.ofText_append (a b : String) :
    ofText (a ++ b) = (ofText a).extend b.toList ∧
      (⟨(ofText a).limit, b.toList⟩ : Cursor) = (ofText b).shift a.utf8ByteSize := by
  constructor
  · rw [ofText, String.toList_append]
    rfl
  · rw [limit, ofText, ofText, shift, byteWidth_toList]

/-- **The blocks of a document behind another.**  If the first scans and ends its last line, the
two together scan exactly when the second does; they have the regions, the directives and the
imports of the first and then those of the second, further back by the bytes of the first. -/
theorem Layout.ofBlocks_append {a : String} {blocks : List Block}
    (hline : a.toList.getLast? = some '\n')
    (ha : Block.scan? (Cursor.ofText a) = some blocks) (b : String) :
    (Block.scan? (Cursor.ofText (a ++ b))).map ofBlocks =
      (Block.scan? (Cursor.ofText b)).map fun others =>
        { regions := (ofBlocks blocks).regions
            ++ (ofBlocks others).regions.map (Region.shift a.utf8ByteSize)
          attributeRegions := (ofBlocks blocks).attributeRegions
            ++ (ofBlocks others).attributeRegions.map (Region.shift a.utf8ByteSize)
          imports := (ofBlocks blocks).imports ++ (ofBlocks others).imports } := by
  obtain ⟨hwhole, hbehind⟩ := Cursor.ofText_append a b
  have hends : (Cursor.ofText a).EndsLine := hline
  rw [hwhole, Block.scan?_extend b.toList hends ha, hbehind, Block.scan?_shift, Option.map_map,
    Option.map_map]
  refine congrArg (fun f => Option.map f _) ?_
  funext others
  simp only [Function.comp_apply, ofBlocks, List.map_append, List.flatMap_append, List.map_map,
    List.flatMap_map, List.map_flatMap]
  rfl

/-- A source file and a directive, and behind them a comment and a block with wide characters. -/
theorem Layout.ofBlocks_append_custom :
    (Block.scan? (Cursor.ofText ("<script src=m></script><template><p :x='1'></p></template>\n"
        ++ "<!--é--><q lang=\"md\">é</Q>"))).map ofBlocks =
      some ⟨[.block .script "script" 14 14, .block .markup "component-markup" 33 47,
          .block .custom "md" 81 83], [.attributeValue "script" 40 41], ["m"]⟩ := by
  have hscan : Block.scan?
        (Cursor.ofText "<script src=m></script><template><p :x='1'></p></template>\n") =
      some [⟨.block .script "script" 14 14, [], ["m"]⟩,
        ⟨.block .markup "component-markup" 33 47, [.attributeValue "script" 40 41], []⟩] := by
    decide +kernel
  rw [ofBlocks_append (by decide) hscan]
  decide +kernel

end ComponentHost
