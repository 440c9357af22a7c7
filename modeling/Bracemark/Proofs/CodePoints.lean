import Bracemark.Proofs.Boundaries
import Bracemark.Proofs.Keywords
import Bracemark.Proofs.Splicing

/-!
# Characters by code point

A buffer in which code points are decoded falls into parts: a character is carried over, and a site
becomes the character that its argument names, or the code of that character (`Decoded`). So every
part of the result has a part of the buffer behind it.

No code has a character of a keyword in it, and a full stop is decoded to a code. So a keyword of
the result begins with a full stop of the buffer and holds whole parts. If all of them are carried
over, the buffer has the keyword too, where they stand; otherwise a letter of it has been decoded
(`codePoints_keywords`). That happens: shielding keeps braces and full stops from being taken for
structure, and a letter is no such character (`codePoints_complete_keyword`).
-/

namespace Bracemark

/-! ## Shielded characters -/

namespace Scheme

/-- A character stays as it is under shielding, or becomes a code, which begins with an at sign. -/
theorem shield_singleton (c : Char) :
    document.shield [c] = [c] ∨ '@' ∈ (document.shield [c]).head? := by
  unfold shield
  rw [List.flatMap_singleton]
  cases document.tag? c with
  | none => exact .inl rfl
  | some g => exact .inr rfl

/-- A shielded character that is part of a keyword is one of its letters. -/
theorem mem_name_of_shield {d : Directive} {c : Char}
    (h : document.shield [c] ⊆ '.' :: d.name.toList) : c ∈ d.name.toList := by
  rcases shield_singleton c with hplain | hcode
  · have hstop := (inert_shield [c]).notMem (c := '.') rfl
    rw [hplain] at h
    rw [hplain, List.mem_singleton] at hstop
    exact (List.mem_cons.1 (h (List.mem_singleton_self c))).resolve_left (Ne.symm hstop)
  · exact absurd (h (List.mem_of_mem_head? hcode)) (d.notMem_keyword rfl (by decide))

end Scheme

/-! ## Parts of a buffer -/

/-- A part of a buffer in which code points are decoded: a character that is carried over, or a site
with the character that its argument names. -/
inductive Decoded where
  | carried (c : Char)
  | character (written : Text) (c : Char)

namespace Decoded

/-- What stands in the buffer. -/
def source : Decoded → Text
  | carried c => [c]
  | character w _ => w

/-- What stands in the result. -/
def result : Decoded → Text
  | carried c => [c]
  | character _ c => Scheme.document.shield [c]

/-- A site of a part is one that names its character. -/
def Named : Decoded → Prop
  | carried _ => True
  | character w c => ∃ x, Stretch.Shaped .codePoint [x] w ∧ Resolve.codePoint? x.trim = some c

variable {ps : List Decoded}

/-- The parts of a result can be parted in front of a full stop. -/
theorem exists_cut {x v : Text} (h : ps.flatMap result = x ++ '.' :: v) :
    ∃ before behind, ps = before ++ behind ∧ before.flatMap result = x ∧
      behind.flatMap result = '.' :: v := by
  induction ps generalizing x with
  | nil => cases x <;> cases h
  | cons p ps ih =>
    by_cases hx : x = []
    · subst hx
      exact ⟨[], p :: ps, rfl, rfl, h⟩
    obtain ⟨x', rfl⟩ : p.result <+: x := by
      rw [List.flatMap_cons] at h
      refine List.prefix_of_prefix_length_le ⟨_, h⟩ (List.prefix_append x _) ?_
      cases p with
      | carried c => exact List.length_pos_iff.2 hx
      | character w c =>
        -- no code has a full stop in it
        exact Text.length_le_of_notMem (u := []) ((Scheme.inert_shield [c]).notMem rfl)
          (Nat.zero_le _) h
    rw [List.flatMap_cons, List.append_assoc] at h
    obtain ⟨before, behind, rfl, rfl, hbehind⟩ := ih (List.append_cancel_left h)
    exact ⟨p :: before, behind, rfl, rfl, hbehind⟩

/-- The parts of a result can be parted behind a text without an at sign. -/
theorem exists_cut_of_notMem {k rest : Text} (hk : '@' ∉ k)
    (h : ps.flatMap result = k ++ rest) :
    ∃ middle behind, ps = middle ++ behind ∧ middle.flatMap result = k ∧
      behind.flatMap result = rest := by
  induction k generalizing ps with
  | nil => exact ⟨[], ps, rfl, rfl, h⟩
  | cons y k ih =>
    rw [List.mem_cons, not_or] at hk
    cases ps with
    | nil => cases h
    | cons p ps =>
      have hp : p.result = [y] := by
        rw [List.flatMap_cons, List.cons_append] at h
        cases p with
        | carried c =>
          obtain ⟨rfl, -⟩ := List.cons.inj h
          rfl
        | character w c =>
          rcases Scheme.shield_singleton c with hplain | hcode
          · rw [result, hplain] at h ⊢
            obtain ⟨rfl, -⟩ := List.cons.inj h
            rfl
          · have hhead := congrArg List.head? h
            rw [List.head?_append, result, Option.mem_def.1 hcode] at hhead
            exact absurd (Option.some.inj hhead) hk.1
      rw [List.flatMap_cons, hp] at h
      obtain ⟨middle, behind, rfl, rfl, hbehind⟩ := ih hk.2 (List.cons.inj h).2
      exact ⟨p :: middle, behind, rfl, by rw [List.flatMap_cons, hp]; rfl, hbehind⟩

/-- Parts that are all carried over are the same in the result. -/
theorem source_eq_result (h : ∀ p ∈ ps, ∃ c, p = carried c) :
    ps.flatMap source = ps.flatMap result := by
  refine List.flatMap_congr fun p hp => ?_
  obtain ⟨c, rfl⟩ := h p hp
  rfl

/-- Where the result goes on with no word, so does the buffer. -/
theorem apart_source (hnamed : ∀ p ∈ ps, p.Named) (h : Text.Apart (ps.flatMap result)) :
    Text.Apart (ps.flatMap source) := by
  cases ps with
  | nil => exact h
  | cons p ps =>
    cases p with
    | carried c => exact h
    | character w c =>
      obtain ⟨x, hshaped, -⟩ := hnamed _ List.mem_cons_self
      obtain ⟨b, -, rfl⟩ := hshaped.blocks
      rintro y ⟨⟩
      rfl

/-- The parts of a text in which every site has become its character. -/
theorem exists_of_becomes {ws : List Stretch} {vs : List Text}
    (h : List.Forall₂ (Stretch.Becomes fun d us v => d = .codePoint ∧
      ∃ c, Resolve.codePoint? (us.headD []).trim = some c ∧ v = Scheme.document.shield [c]) ws vs)
    (hshaped : ∀ d us w, .site d us w ∈ ws → Stretch.Shaped d us w) :
    ∃ ps : List Decoded, ws.flatMap Stretch.written = ps.flatMap source ∧
      vs.flatten = ps.flatMap result ∧ ∀ p ∈ ps, p.Named := by
  induction h with
  | nil => exact ⟨[], rfl, rfl, nofun⟩
  | @cons w v ws vs hw _ ih =>
    obtain ⟨ps, hsource, hresult, hnamed⟩ := ih fun d us w hw =>
      hshaped d us w (List.mem_cons_of_mem _ hw)
    rw [List.flatMap_cons, List.flatten_cons, hsource, hresult]
    cases w with
    | fault f => exact hw.elim
    | kept c =>
      obtain rfl : v = [c] := hw
      exact ⟨.carried c :: ps, rfl, rfl, List.forall_mem_cons.2 ⟨trivial, hnamed⟩⟩
    | site d us w =>
      obtain ⟨rfl, c, hc, rfl⟩ := hw
      have hsite := hshaped _ us w List.mem_cons_self
      obtain ⟨x, rfl⟩ := List.length_eq_one_iff.1 hsite.arity
      exact ⟨.character w c :: ps, rfl, rfl, List.forall_mem_cons.2 ⟨⟨x, hsite, hc⟩, hnamed⟩⟩

/-- A keyword of a result is carried over from the buffer, or a letter of it has been decoded. -/
theorem keyword_cases (hnamed : ∀ p ∈ ps, p.Named) {token : Token} {d : Directive}
    (hmem : token ∈ Lexer.directive.tokens (ps.flatMap result))
    (hd : token.directive? = some d) :
    ∃ before middle behind, ps = before ++ middle ++ behind ∧
      token = d.token (before.flatMap result).length ∧
      middle.flatMap result = '.' :: d.name.toList ∧
      ((∀ p ∈ middle, ∃ c, p = carried c) ∧
          d.token (before.flatMap source).length ∈ Lexer.directive.tokens (ps.flatMap source) ∨
        ∃ w c, character w c ∈ middle ∧ c ∈ d.name.toList) := by
  obtain ⟨x, v, hresult, hv, rfl⟩ := Lexer.mem_tokens_iff.1 ⟨hmem, hd⟩
  obtain ⟨rest, rfl⟩ := Text.eq_append_of_directive? hv
  obtain ⟨before, tail, rfl, rfl, htail⟩ := exists_cut hresult
  obtain ⟨middle, behind, rfl, hmiddle, hbehind⟩ :=
    exists_cut_of_notMem (d.notMem_keyword rfl (by decide)) htail
  refine ⟨before, middle, behind, (List.append_assoc ..).symm, rfl, hmiddle, ?_⟩
  by_cases hall : ∀ p ∈ middle, ∃ c, p = carried c
  · refine .inl ⟨hall, ?_⟩
    have hapart : Text.Apart (behind.flatMap source) := by
      refine apart_source (fun p hp => hnamed p ?_) ?_
      · exact List.mem_append_right _ (List.mem_append_right _ hp)
      · rw [hbehind]
        exact Text.apart_of_directive? hv
    refine (Lexer.mem_tokens_iff.2 ⟨before.flatMap source,
      '.' :: (d.name.toList ++ behind.flatMap source), ?_, hapart.directive?_keyword d, rfl⟩).1
    rw [List.flatMap_append, List.flatMap_append, source_eq_result hall, hmiddle,
      List.cons_append]
  · push Not at hall
    obtain ⟨p, hp, hne⟩ := hall
    cases p with
    | carried c => exact absurd rfl (hne c)
    | character w c =>
      refine .inr ⟨w, c, hp, Scheme.mem_name_of_shield ?_⟩
      rw [← hmiddle]
      exact fun y hy => List.mem_flatMap.2 ⟨_, hp, hy⟩

end Decoded

/-! ## The stage of code points -/

namespace Preprocess

/-- The stage of code points decodes its buffer part by part. -/
theorem exists_decoded {ctx : Context} {t u : Text} {s s' : RunState} (ht : '\\' ∉ t)
    (h : stage ctx t .codePoints s = .ok u s') :
    ∃ ps : List Decoded, t = ps.flatMap Decoded.source ∧ u = ps.flatMap Decoded.result ∧
      ∀ p ∈ ps, p.Named := by
  obtain ⟨v, s₁, hbare, -, rfl, -, -⟩ := eq_of_stage h
  rw [bareStage_of_ne (by decide)] at hbare
  obtain ⟨-, vs, hvs, rfl, -⟩ := becomes_of_family (fun _ => True) (fun d us v => d = .codePoint ∧
      ∃ c, Resolve.codePoint? (us.headD []).trim = some c ∧ v = Scheme.document.shield [c])
    hbare (fun _ _ _ _ => trivial) trivial (by
      intro a ha r v r' _ hgives
      have hd : a.site.directive = .codePoint := by
        have hfamily := (shaped_of_attempts ha).1
        cases hdirective : a.site.directive <;> rw [hdirective] at hfamily <;>
          first | rfl | cases hfamily
      unfold Resolve.Gives at hgives
      rw [hd] at hgives
      obtain ⟨-, c, hc, rfl⟩ := hgives
      exact ⟨⟨hd, c, hc, rfl⟩, trivial⟩)
  obtain ⟨ps, hsource, hresult, hnamed⟩ := Decoded.exists_of_becomes hvs fun d us w hw =>
    (Stretch.shaped_of_mem hw).2
  rw [Stretch.flatMap_written_of_becomes hvs] at hsource
  refine ⟨ps, hsource, ?_, hnamed⟩
  -- nothing that is carried over or decoded has a backslash for protection to find
  rw [hresult, Scheme.protect_of_notMem]
  intro hm
  obtain ⟨p, hp, hm⟩ := List.mem_flatMap.1 hm
  cases p with
  | carried c => exact ht (hsource ▸ List.mem_flatMap.2 ⟨_, hp, hm⟩)
  | character w c => exact (Scheme.inert_shield [c]).notMem rfl hm

end Preprocess

/-- Every keyword of a buffer in which code points are decoded consists of whole parts. Either all
of them are carried over, and the buffer has the keyword where they stand in it, or one of them is
a decoded letter of the keyword. -/
theorem codePoints_keywords {ctx : Context} {t u : Text} {s s' : RunState} (ht : '\\' ∉ t)
    (h : Preprocess.stage ctx t .codePoints s = .ok u s') :
    ∃ ps : List Decoded, t = ps.flatMap Decoded.source ∧ u = ps.flatMap Decoded.result ∧
      (∀ p ∈ ps, p.Named) ∧
      ∀ token ∈ Lexer.directive.tokens u, ∀ d, token.directive? = some d →
        ∃ before middle behind, ps = before ++ middle ++ behind ∧
          token = d.token (before.flatMap Decoded.result).length ∧
          middle.flatMap Decoded.result = '.' :: d.name.toList ∧
          ((∀ p ∈ middle, ∃ c, p = .carried c) ∧
              d.token (before.flatMap Decoded.source).length ∈ Lexer.directive.tokens t ∨
            ∃ w c, .character w c ∈ middle ∧ c ∈ d.name.toList) := by
  obtain ⟨ps, rfl, rfl, hnamed⟩ := Preprocess.exists_decoded ht h
  exact ⟨ps, rfl, rfl, hnamed, fun token hmem d hd => Decoded.keyword_cases hnamed hmem hd⟩

/-- A letter in front of a link is decoded. -/
theorem codePoints_keywords_link :
    '\\' ∉ ".unicode\x7b6B\x7d.link\x7ba\x7d\x7bb\x7d".toList ∧
    ∃ s', Preprocess.stage {} ".unicode\x7b6B\x7d.link\x7ba\x7d\x7bb\x7d".toList .codePoints {} =
        .ok "k.link\x7ba\x7d\x7bb\x7d".toList s' ∧
      ∃ before middle behind : List Decoded,
        ".unicode\x7b6B\x7d.link\x7ba\x7d\x7bb\x7d".toList =
          (before ++ middle ++ behind).flatMap Decoded.source ∧
        middle.flatMap Decoded.result = ".link".toList ∧
        ((∀ p ∈ middle, ∃ c, p = .carried c) ∧
            Directive.link.token (before.flatMap Decoded.source).length ∈
              Lexer.directive.tokens ".unicode\x7b6B\x7d.link\x7ba\x7d\x7bb\x7d".toList ∨
          ∃ w c, .character w c ∈ middle ∧ c ∈ "link".toList) := by
  have hplain : '\\' ∉ ".unicode\x7b6B\x7d.link\x7ba\x7d\x7bb\x7d".toList := by decide
  obtain ⟨s', hs'⟩ := Run.exists_of_value?
    (r := Preprocess.stage {} ".unicode\x7b6B\x7d.link\x7ba\x7d\x7bb\x7d".toList .codePoints {})
    (a := "k.link\x7ba\x7d\x7bb\x7d".toList) (by decide +kernel)
  obtain ⟨ps, hsource, -, -, hkeywords⟩ := codePoints_keywords hplain hs'
  obtain ⟨before, middle, behind, rfl, -, hmiddle, hcases⟩ :=
    hkeywords (Directive.link.token 1) (by decide +kernel) .link rfl
  exact ⟨hplain, s', hs', before, middle, behind, hsource, hmiddle, hcases⟩

/-- The last letter of a keyword is decoded: the result has a keyword that the buffer has not. -/
theorem codePoints_complete_keyword :
    '\\' ∉ ".lin.unicode\x7b6B\x7d\x7ba\x7d\x7bb\x7d".toList ∧
    ∃ s', Preprocess.stage {} ".lin.unicode\x7b6B\x7d\x7ba\x7d\x7bb\x7d".toList .codePoints {} =
        .ok ".link\x7ba\x7d\x7bb\x7d".toList s' ∧
      Directive.link.token 0 ∈ Lexer.directive.tokens ".link\x7ba\x7d\x7bb\x7d".toList ∧
      ∀ token ∈ Lexer.directive.tokens ".lin.unicode\x7b6B\x7d\x7ba\x7d\x7bb\x7d".toList,
        token.directive? ≠ some .link := by
  obtain ⟨s', hs'⟩ := Run.exists_of_value?
    (r := Preprocess.stage {} ".lin.unicode\x7b6B\x7d\x7ba\x7d\x7bb\x7d".toList .codePoints
      {}) (a := ".link\x7ba\x7d\x7bb\x7d".toList) (by decide +kernel)
  exact ⟨by decide, s', hs', by decide +kernel, by decide +kernel⟩

end Bracemark
