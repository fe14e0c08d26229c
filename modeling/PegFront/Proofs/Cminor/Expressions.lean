import PegFront.Proofs.Cminor.Soundness

/-!
# Parsing expressions

A source parses as an expression just if it is a text of the grammar between gaps, and the result is the tree of that
text.
-/

namespace PegFront.Cminor

theorem exists_cursor (o : Nat) (x t : List Char) : (⟨o, x ++ t⟩ : Cursor).Spans x ⟨o + Text.byteLength x, t⟩ :=
  ⟨rfl, rfl⟩

/-- A gap at the end of a text can be skipped. -/
theorem skip_rest {w : World Value} (hw : w.rules = table) {c : Cursor} (h : afterGap c.rest = some [])
    (ctx : Context Value) : ∃ d, Derives w blanks (.skip ctx) c (.hit ctx d) ∧ d.rest = [] := by
  obtain ⟨d, hd, hrest⟩ | ⟨-, hnone⟩ := skip_blanks hw ctx c
  · exact ⟨d, hd, Option.some.inj (hrest.symm.trans h)⟩
  · cases hnone.symm.trans h

/-- What a rule yields between gaps is accepted. -/
theorem accepts_of_yields {fileIndex : Nat} {file name : String} {args : List Value} {v : Value} {lead : List Char}
    {c d : Cursor} (hlead : Gap lead) (hc : c.offset = Text.byteLength lead) (hsolid : Solid c.rest)
    (h : Yields (world fileIndex file) blanks name args c v d) (hd : afterGap d.rest = some []) :
    (world fileIndex file).Accepts blanks (idOf name) args (lead ++ c.rest) v := by
  obtain ⟨ctx, hv, hrule⟩ := h
  obtain ⟨last, hlast, hnil⟩ := skip_rest (w := world fileIndex file) rfl hd .empty
  have hspan : (⟨0, lead ++ c.rest⟩ : Cursor).Spans lead c := ⟨rfl, by rw [hc, Nat.zero_add]⟩
  exact ⟨c, ctx, d, last, skip_gap rfl hlead hspan hsolid .empty, hrule, hv, hlast, hnil⟩

theorem parseExpression_eq_ok_iff {source : String} {fileIndex : Nat} {file : String} {e : Expr} :
    parseExpression source fileIndex file = .ok e ↔ ∃ lead x trail, source.toList = lead ++ x ++ trail ∧ Gap lead ∧
      Reads fileIndex false 0 (Text.byteLength lead) x e ∧ afterGap trail = some [] := by
  refine parseFile_eq_ok_iff.trans ⟨?_, ?_⟩
  · rintro ⟨v, hv, c, ctx, d, last, hskip, hrule, hvalue, hskip', hlast⟩
    obtain ⟨x, e', hreads, hspan, rfl⟩ := (sound (w := world fileIndex file) rfl c).expression rfl ⟨ctx, hvalue, hrule⟩
    obtain rfl : e' = e := Option.some.inj hv
    obtain ⟨ch, y, rfl, -⟩ := hreads.head
    obtain ⟨g, hg, hgap, -⟩ := gap_of_skip rfl hskip (by rw [hspan.rest]; exact nofun)
    refine ⟨g, ch :: y, d.rest, (hgap.trans hspan).rest, hg, ?_, ?_⟩
    · have hoffset : c.offset = Text.byteLength g := by rw [hgap.offset]; exact Nat.zero_add _
      rw [← hoffset]
      exact hreads
    · rw [afterGap_of_skip rfl hskip', hlast]
  · rintro ⟨lead, x, trail, hsource, hlead, hreads, htrail⟩
    have hspan := exists_cursor (Text.byteLength lead) x trail
    have hyields := expression_yields (w := world fileIndex file) rfl
      ((hreads.read rfl hspan rfl).level (ends_nothing htrail))
    refine ⟨.expr e, rfl, ?_⟩
    rw [hsource, List.append_assoc]
    exact accepts_of_yields hlead rfl (hreads.solid trail) hyields htrail

end PegFront.Cminor
