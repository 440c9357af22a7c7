import Bracemark.Proofs.Escapes

/-!
# Shielded data

Text that comes from decoded data is shielded: every character that can be escaped becomes its code,
whatever the data spells. A code begins with an at sign, and an at sign of the data has become a code
itself. So the codes of a shielded text are those that shielding has put in, also between texts
without at signs (`Scheme.ofText_shielded`): it is restored as the data, and nothing is dropped.

As no reserved character is left, nothing in a shielded text is taken for structure
(`shield_recoverable`).
-/

namespace Bracemark

namespace Scheme

variable {a b t : Text}

theorem shield_append (t u : Text) :
    document.shield (t ++ u) = document.shield t ++ document.shield u := List.flatMap_append

/-- Between texts without at signs, the codes of shielded data are those of its characters. -/
theorem ofText_shielded (ha : '@' ∉ a) (hb : '@' ∉ b) (t : Text) :
    Chunk.ofText (a ++ document.shield t ++ b) =
      a.map .plain ++ t.map document.shieldedChunk ++ b.map .plain :=
  (((Chunk.cuts_of_notMem ha).append (cuts_shield t)).append (Chunk.cuts_of_notMem hb)).segment_eq

/-- Shielding puts in known codes only. -/
theorem unknownTags_shielded (ha : '@' ∉ a) (hb : '@' ∉ b) (t : Text) :
    document.unknownTags (a ++ document.shield t ++ b) = [] := by
  rw [unknownTags, ofText_shielded ha hb, List.filterMap_eq_nil_iff]
  intro k hk
  simp only [List.mem_append, List.mem_map] at hk
  obtain (⟨c, -, rfl⟩ | ⟨c, -, rfl⟩) | ⟨c, -, rfl⟩ := hk
  · rfl
  · unfold shieldedChunk
    cases hg : document.tag? c with
    | none => rfl
    | some g => simp [(coded_of_tag? hg).character]
  · rfl

end Scheme

/-- Data is restored from its shielded form between texts without at signs, and a run drops no code
over it. -/
theorem Run.deprotect_shielded {a b : Text} (ha : '@' ∉ a) (hb : '@' ∉ b) (t : Text)
    (s : RunState) :
    Run.deprotect .document (a ++ Scheme.document.shield t ++ b) s = .ok (a ++ t ++ b) s := by
  have hrestores : Scheme.document.Restores (a ++ Scheme.document.shield t ++ b) (a ++ t ++ b) :=
    ((Scheme.Restores.of_notMem ha).append (.shield t)).append (.of_notMem hb)
  unfold Run.deprotect
  rw [Scheme.unknownTags_shielded ha hb, hrestores.deprotect_eq]
  rfl

/-- Shielded data is inert and recoverable. It is restored as it was, also between texts without at
signs, and protected already. It holds no brace, full stop or backslash, so that no scanner finds a
brace in it and the scanner of directives no keyword. Shielding goes character by character. -/
theorem shield_recoverable (t : Text) :
    (∀ s, Run.deprotect .document (Scheme.document.shield t) s = .ok t s) ∧
    (∀ file s, Run.protect .document file (Scheme.document.shield t) s =
      .ok (Scheme.document.shield t) s) ∧
    (∀ c ∈ ['\x7b', '\x7d', '.', '\\'], c ∉ Scheme.document.shield t) ∧
    (∀ lexer ∈ [Lexer.directive, Lexer.document],
      ∀ token ∈ lexer.tokens (Scheme.document.shield t),
        token.kind ≠ .blockStart ∧ token.kind ≠ .blockEnd) ∧
    (∀ token ∈ Lexer.directive.tokens (Scheme.document.shield t), token.directive? = none) ∧
    (∀ u, Scheme.document.shield (t ++ u) =
      Scheme.document.shield t ++ Scheme.document.shield u) ∧
    ∀ a b, '@' ∉ a → '@' ∉ b → ∀ s,
      Run.deprotect .document (a ++ Scheme.document.shield t ++ b) s = .ok (a ++ t ++ b) s := by
  have hinert := Scheme.inert_shield t
  refine ⟨fun s => ?_, fun file s => ?_, fun c hc => ?_, fun lexer hlexer token htoken => ?_,
    fun token htoken => ?_, Scheme.shield_append t, fun a b ha hb => Run.deprotect_shielded ha hb t⟩
  · simpa using Run.deprotect_shielded (a := []) (b := []) List.not_mem_nil List.not_mem_nil t s
  · exact Run.protect_of_notMem (hinert.notMem rfl) ..
  · have hreserved : (['\x7b', '\x7d', '.', '\\'].all isReserved) = true := by decide
    exact hinert.notMem (List.all_eq_true.1 hreserved c hc)
  · have hl : lexer.Structural := by
      simp only [List.mem_cons, List.not_mem_nil, or_false] at hlexer
      rcases hlexer with rfl | rfl
      · exact Lexer.structural_directive
      · exact Lexer.structural_document
    have hplaced : token ∈ lexer.tokensFrom 0 (Scheme.document.shield t) := htoken
    exact Lexer.kind_of_mem_tokensFrom (p := fun k => k ≠ .blockStart ∧ k ≠ .blockEnd)
      (fun e he => hl.kind_ne_of_mem_lexemes hinert.noBrace he) hplaced
  · have hnone := Text.hasDirective_of_notMem (hinert.notMem (c := '.') rfl)
    exact Option.not_isSome_iff_eq_none.1 (List.any_eq_false.1 hnone token htoken)

/-- Data that spells a code, an escape pair and a keyword, with parts of a code around it. -/
theorem shield_recoverable_code :
    '@' ∉ "#\x27:[;:LB".toList ∧ '@' ∉ "]:P_]".toList ∧
    ∀ s, Run.deprotect .document ("#\x27:[;:LB".toList ++
        Scheme.document.shield "@#\x27:[;:LB]\\\x7b.link".toList ++ "]:P_]".toList) s =
      .ok "#\x27:[;:LB@#\x27:[;:LB]\\\x7b.link]:P_]".toList s := by
  have ha : '@' ∉ "#\x27:[;:LB".toList := by decide
  have hb : '@' ∉ "]:P_]".toList := by decide
  obtain ⟨-, -, -, -, -, -, hbetween⟩ := shield_recoverable "@#\x27:[;:LB]\\\x7b.link".toList
  exact ⟨ha, hb, hbetween _ _ ha hb⟩

end Bracemark
