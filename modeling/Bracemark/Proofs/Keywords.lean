import Bracemark.Proofs.Stretches

/-!
# Keywords and their tokens

A token is the keyword of a directive exactly where the text that is left begins with that keyword
(`Lexer.mem_tokens_iff`): no other token of the directive scanner has a full stop in it that is not
its first character, so none reaches across a keyword.
-/

namespace Bracemark

namespace Directive

/-- The token of the keyword of a directive at an offset. -/
def token (d : Directive) (start : Nat) : Token := ⟨.directive d, start, '.' :: d.name.toList⟩

theorem token_stop (d : Directive) (start : Nat) :
    (d.token start).stop = start + (d.name.length + 1) := by
  rw [Token.stop, token, List.length_cons, String.length_toList]

end Directive

namespace Text

variable {t : Text} {d : Directive}

/-- A text that begins with a keyword is that keyword and what stands behind it. -/
theorem eq_append_of_directive? (h : directive? t = some d) :
    ∃ rest, t = '.' :: (d.name.toList ++ rest) := by
  cases t with
  | nil => cases h
  | cons c rest =>
    obtain ⟨rfl, hname, -⟩ := eq_of_directive? h
    refine ⟨rest.drop d.name.length, ?_⟩
    rw [← String.length_toList, ← hname, drop_length_takeWhile, List.takeWhile_append_dropWhile]

end Text

namespace Lexer

variable {t : Text} {token : Token} {d : Directive}

/-- The tokens that are keywords are those of the places at which a keyword begins. -/
theorem mem_tokensFrom_iff {start : Nat} :
    token ∈ directive.tokensFrom start t ∧ token.directive? = some d ↔
      ∃ u v, t = u ++ v ∧ Text.directive? v = some d ∧ token = d.token (start + u.length) := by
  induction t using segment_induction directive generalizing start with
  | nil =>
    refine iff_of_false (fun h => nomatch h.1) ?_
    rintro ⟨u, v, huv, hd, -⟩
    obtain ⟨-, rfl⟩ := List.append_eq_nil_iff.1 huv.symm
    cases hd
  | cons c rest ih =>
    have hlen := structural_directive.length_le c rest
    rw [tokensFrom_cons, List.mem_cons, or_and_right, ih]
    constructor
    · rintro (⟨rfl, hd⟩ | ⟨u, v, hdrop, hd, rfl⟩)
      · rw [Token.directive?_eq] at hd
        obtain ⟨rfl, hname, hlexer⟩ := Text.eq_of_directive? hd
        refine ⟨[], '.' :: rest, rfl, hd, ?_⟩
        rw [hlexer, Directive.token, ← String.length_toList, ← hname, take_length_takeWhile]
        rfl
      · refine ⟨c :: (rest.take (directive c rest).2 ++ u), v, ?_, hd, ?_⟩
        · rw [List.cons_append, List.append_assoc, ← hdrop, List.take_append_drop]
        · rw [List.length_cons, List.length_append]
          congr 1
          omega
    · rintro ⟨u, v, huv, hd, rfl⟩
      cases u with
      | nil =>
        obtain rfl : c :: rest = v := huv
        obtain ⟨rfl, hname, hlexer⟩ := Text.eq_of_directive? hd
        refine .inl ⟨?_, rfl⟩
        rw [hlexer, Directive.token, ← String.length_toList, ← hname, take_length_takeWhile]
        rfl
      | cons x u =>
        obtain ⟨rfl, hrest⟩ := List.cons.inj (huv.trans (List.cons_append ..))
        -- the keyword begins at a full stop, and so not within the first token
        obtain ⟨u', hu'⟩ := Text.suffix_of_directive? (u := rest.take (directive c rest).2)
          (s := v) (fun y => ne_stop_of_mem_take) (by
            rw [List.take_append_drop]
            exact ⟨u, hrest.symm⟩) (by rw [hd]; rfl)
        refine .inr ⟨u', v, hu'.symm, hd, ?_⟩
        have hlength := congrArg List.length hu'
        have hwhole := congrArg List.length hrest
        simp only [List.length_append, List.length_drop] at hlength hwhole
        rw [List.length_cons, List.length_take]
        congr 1
        omega

/-- A keyword is a token of a text exactly where it begins there. -/
theorem mem_tokens_iff : token ∈ directive.tokens t ∧ token.directive? = some d ↔
    ∃ u v, t = u ++ v ∧ Text.directive? v = some d ∧ token = d.token u.length := by
  have h := @mem_tokensFrom_iff t token d 0
  simp only [Nat.zero_add] at h
  exact h

end Lexer

end Bracemark
