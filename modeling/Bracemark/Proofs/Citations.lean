import Bracemark.Proofs.Grammar
import Bracemark.Proofs.Places

/-!
# What faults and nodes of a document refer to

The parser takes the offsets of its faults and of its nodes from tokens: from the token that was
found, the tag behind which the input ended, the brace that was not closed, the tag of a node
(`Document.Faults`, `Document.Derives`). All of these tokens begin at places of the source: the ones
with a meaning because no code holds their first character, and any other token that is found behind
a tag because the tag and the blanks lead there.

So a fault is in the line of what it is about (`Place.of_parseFault`), and every node in the line of
its word (`cites_of_derives`).
-/

namespace Bracemark

namespace Lexer

variable {t : Text} {start : Nat} {token : Token} {ts : List Token}

/-- The characters that codes hold behind their first one have no meaning in markup. -/
theorem isInner_of_document {c : Char} {rest : Text} (h : (document c rest).1 ≠ .other) :
    Tag.isInner c = false := by
  rw [Bool.eq_false_iff]
  intro hinner
  have hbounds := Tag.toNat_of_isInner hinner
  rcases document_cases c rest with ⟨hblank, -⟩ | ⟨rfl, -⟩ | ⟨rfl, -⟩ | ⟨k, -, -, hword, -⟩ |
    ⟨p, -, -, -, hother⟩
  · rw [isBlank_of_ascii (by omega) (by omega)] at hblank
    cases hblank
  · cases hinner
  · cases hinner
  · -- a word of a tag begins with a small letter
    have hhead : k.word.toList.head?.any Tag.isInner = false := by cases k <;> decide
    rw [← hword, List.head?_cons, Option.any_some, hinner] at hhead
    cases hhead
  · exact h (by rw [hother])

theorem text_of_tag {k : Kind} (h : document.tokensFrom start t = token :: ts)
    (hkind : token.kind = .tag k) : token.text = k.word.toList := by
  obtain ⟨c, rest, rfl, rfl⟩ := eq_of_tokensFrom h
  rcases document_cases c rest with ⟨-, hd⟩ | ⟨rfl, hd⟩ | ⟨rfl, hd⟩ | ⟨k', -, -, hword, hd⟩ |
    ⟨p, -, -, -, hd⟩
  all_goals simp only [hd] at hkind ⊢
  all_goals cases hkind
  rw [take_length_takeWhile, hword]

/-- Only tokens without a meaning hold the first character of a code. -/
theorem notMem_text (h : document.tokensFrom start t = token :: ts)
    (hkind : token.kind ≠ .other) : '@' ∉ token.text := by
  by_cases htag : ∃ k, token.kind = .tag k
  · obtain ⟨k, hk⟩ := htag
    rw [text_of_tag h hk]
    cases k <;> decide
  · obtain ⟨c, rest, rfl, rfl⟩ := eq_of_tokensFrom h
    rcases document_cases c rest with ⟨hblank, hd⟩ | ⟨rfl, hd⟩ | ⟨rfl, hd⟩ | ⟨k, -, -, -, hd⟩ |
      ⟨p, -, -, -, hd⟩
    · simp only [hd, take_length_takeWhile]
      intro hmem
      rcases List.mem_cons.1 hmem with rfl | hmem
      · cases hblank
      · cases eq_true_of_mem_takeWhile hmem
    · simp [hd]
    · simp [hd]
    · exact absurd ⟨k, by rw [hd]⟩ htag
    · exact absurd (by rw [hd]) hkind

end Lexer

/-! ## Tokens at places -/

namespace Text.Place

variable {t u v : Text} {n : Nat} {token : Token} {before behind ts : List Token}

/-- Tokens with a meaning begin at places. -/
theorem of_token (h : Scheme.document.fault? t = none)
    (ht : token :: behind <:+ Lexer.document.tokens (Scheme.document.protect t))
    (hkind : token.kind ≠ .other) :
    ∃ u v, Place t u v token.start ∧
      Lexer.document.tokensFrom token.start (Scheme.document.protect v) = token :: behind := by
  obtain ⟨before, hbefore⟩ := ht
  have hall : Lexer.document.tokensFrom 0 (Scheme.document.protect t) = before ++ token :: behind :=
    hbefore.symm
  obtain ⟨y, hy, htokens⟩ := Lexer.tokensFrom_eq_append hall
  obtain ⟨c, rest, rfl, rfl⟩ := Lexer.eq_of_tokensFrom htokens.symm
  obtain ⟨u, v, hplace, hv⟩ := (start h).seek hy (Lexer.isInner_of_document hkind)
  refine ⟨u, v, hplace, ?_⟩
  rw [hv, htokens]

/-- Tokens with a meaning lead from one place to the next. -/
theorem pass (h : Place t u v n)
    (hv : Lexer.document.tokensFrom n (Scheme.document.protect v) = before ++ ts)
    (hkinds : ∀ token ∈ before, token.kind ≠ .other) :
    ∃ v' m, v = before.flatMap (·.text) ++ v' ∧ Place t (u ++ before.flatMap (·.text)) v' m ∧
      Lexer.document.tokensFrom m (Scheme.document.protect v') = ts := by
  obtain ⟨y, hy, rfl⟩ := Lexer.tokensFrom_eq_append hv
  have hat : '@' ∉ before.flatMap (·.text) := by
    intro hmem
    obtain ⟨token, htoken, hat⟩ := List.mem_flatMap.1 hmem
    obtain ⟨first, more, rfl⟩ := List.append_of_mem htoken
    rw [List.append_assoc, List.cons_append] at hv
    obtain ⟨z, -, hz⟩ := Lexer.tokensFrom_eq_append hv
    exact Lexer.notMem_text hz.symm (hkinds token htoken) hat
  obtain ⟨v', hsplit, hplace, rfl⟩ := h.advance hy hat
  exact ⟨v', _, hsplit, hplace, rfl⟩

end Text.Place

/-- The first token of a text is the same wherever the text begins. -/
theorem Lexer.head?_tokens {lexer : Lexer} {start : Nat} {t : Text} {token : Token}
    {ts : List Token} (h : lexer.tokensFrom start t = token :: ts) :
    (lexer.tokens t).head? = some { token with start := 0 } := by
  obtain ⟨c, rest, rfl, rfl⟩ := eq_of_tokensFrom h
  have htokens : lexer.tokens (c :: rest) = _ := tokensFrom_cons lexer 0 c rest
  rw [htokens]
  rfl

namespace Document

/-! ## What a fault is about -/

/-- The faults that a parser of tokens can have, each with the token that its offset is from. -/
inductive Faults (text : Text) (ts : List Token) : ParseFault → Prop where
  | unexpected {accepted : List String} {token : Token} {behind : List Token}
      (tokens : token :: behind <:+ ts) (kind : token.kind ≠ .other) :
      Faults text ts ⟨.unexpected accepted (.ofToken? (some token)), token.start⟩
  | unfinished {accepted : List String} :
      Faults text ts ⟨.unexpected accepted .endOfInput, text.length⟩
  | atEnd {tag : Token} {gap : List Token} {k : Kind} (tokens : tag :: gap <:+ ts)
      (tagged : tag.kind = .tag k) (gap : ∀ t ∈ gap, t.kind = .blank) :
      Faults text ts ⟨.block (.expected tag.text .endOfInput), tag.start⟩
  | found {tag token : Token} {gap behind : List Token} {k : Kind}
      (tokens : tag :: (gap ++ token :: behind) <:+ ts) (tagged : tag.kind = .tag k)
      (gap : ∀ t ∈ gap, t.kind = .blank) (blank : token.kind ≠ .blank)
      (opening : token.kind ≠ .blockStart) :
      Faults text ts ⟨.block (.expected tag.text (.ofToken? (some token))), token.start⟩
  | unclosed {keyword : Text} {opening : Token} {behind : List Token}
      (tokens : opening :: behind <:+ ts) (opens : opening.kind = .blockStart)
      (unclosed : (Token.closingBrace 0 behind).1 = none) :
      Faults text ts ⟨.block (.unterminated keyword), opening.start⟩

theorem Faults.mono {text : Text} {ts ts' : List Token} {f : ParseFault} (h : Faults text ts f)
    (hts : ts <:+ ts') : Faults text ts' f := by
  cases h with
  | unexpected tokens kind => exact .unexpected (tokens.trans hts) kind
  | unfinished => exact .unfinished
  | atEnd tokens tagged gap => exact .atEnd (tokens.trans hts) tagged gap
  | found tokens tagged gap blank opening =>
    exact .found (tokens.trans hts) tagged gap blank opening
  | unclosed tokens opens unclosed => exact .unclosed (tokens.trans hts) opens unclosed

namespace ParseState

variable {collapse : Bool} {text : Text} {s next : ParseState} {f : ParseFault} {token : Token}
  {ts : List Token}

/-- What a fault is about that is found behind a state, from the tokens that are left on. -/
def Faulty (text : Text) (s : ParseState) (ts : List Token) (f : ParseFault) : Prop :=
  match s.mode with
  | .between => Faults text ts f
  | .entering tag k => tag.kind = .tag k → ∀ gap, (∀ t ∈ gap, t.kind = .blank) →
      Faults text (tag :: (gap ++ ts)) f
  | .inside tag _ opening depth => Faults text ts f ∨
      (Token.closingBrace depth ts).1 = none ∧
        f = ⟨.block (.unterminated tag.text), opening.start⟩

theorem faulty_of_stepBetween {c : Container} {outer : List Container}
    {closed : List (Kind × Nat)}
    (h : stepBetween ⟨c, outer, .between, closed⟩ token = .ok next)
    (hnext : next.Faulty text ts f) : Faults text (token :: ts) f := by
  unfold stepBetween at h
  simp only at h
  have hlater : ts <:+ token :: ts := List.suffix_cons token ts
  split at h
  · cases h
    exact Faults.mono hnext hlater
  · cases h
    exact Faults.mono hnext hlater
  · rename_i k hkind
    split at h
    · cases h
      exact hnext hkind [] nofun
    · cases h
  · unfold close at h
    cases outer with
    | nil => cases h
    | cons parent outer =>
      cases h
      exact Faults.mono hnext hlater
  · cases h

theorem faulty_of_stepEntering {c : Container} {outer : List Container}
    {closed : List (Kind × Nat)} {tag : Token} {k : Kind}
    (h : stepEntering ⟨c, outer, .entering tag k, closed⟩ text tag k token = .ok next)
    (hnext : next.Faulty text ts f) :
    Faulty text ⟨c, outer, .entering tag k, closed⟩ (token :: ts) f := by
  intro htag gap hgap
  have hlater : token :: ts <:+ tag :: (gap ++ token :: ts) :=
    (List.suffix_append gap _).trans (List.suffix_cons tag _)
  unfold stepEntering at h
  split at h
  · rename_i hkind
    cases h
    have hmore := hnext htag (gap ++ [token])
    rw [List.append_assoc, List.singleton_append] at hmore
    refine hmore (List.forall_mem_append.2 ⟨hgap, ?_⟩)
    simpa using hkind
  · rename_i hkind
    split at h
    · cases h
      rcases hnext with hfaults | ⟨hnone, rfl⟩
      · exact hfaults.mono ((List.suffix_cons token ts).trans hlater)
      · exact .unclosed hlater hkind hnone
    · cases h
      exact Faults.mono hnext ((List.suffix_cons token ts).trans hlater)
  · cases h

theorem faulty_of_stepInside {c : Container} {outer : List Container}
    {closed : List (Kind × Nat)} {tag opening : Token} {k : Kind} {depth : Nat}
    (hnext : Faulty text (stepInside ⟨c, outer, .inside tag k opening depth, closed⟩ collapse text
      tag k opening depth token) ts f) :
    Faulty text ⟨c, outer, .inside tag k opening depth, closed⟩ (token :: ts) f := by
  have hlater : ts <:+ token :: ts := List.suffix_cons token ts
  by_cases hopens : token.kind = .blockStart
  · obtain ⟨_, start, word⟩ := token
    cases hopens
    exact hnext.imp (fun h => h.mono hlater) id
  by_cases hcloses : token.kind = .blockEnd
  · obtain ⟨_, start, word⟩ := token
    cases hcloses
    cases depth with
    | zero => exact .inl (Faults.mono hnext hlater)
    | succ inner => exact hnext.imp (fun h => h.mono hlater) id
  · rw [stepInside_of_ne ⟨hopens, hcloses⟩] at hnext
    refine hnext.imp (fun h => h.mono hlater) fun h => ?_
    rwa [Token.closingBrace_cons_of_ne ⟨hopens, hcloses⟩]

theorem faulty_of_step (h : s.step collapse text token = .ok next)
    (hnext : next.Faulty text ts f) : s.Faulty text (token :: ts) f := by
  obtain ⟨c, outer, mode, closed⟩ := s
  cases mode with
  | between => exact faulty_of_stepBetween h hnext
  | entering tag k => exact faulty_of_stepEntering h hnext
  | inside tag k opening depth =>
    cases h
    exact faulty_of_stepInside hnext

theorem faulty_of_error (h : s.step collapse text token = .error f) :
    s.Faulty text (token :: ts) f := by
  obtain ⟨c, outer, mode, closed⟩ := s
  cases mode with
  | between =>
    have hunexpected (hkind : token.kind ≠ .other)
        (hf : f = unexpected ⟨c, outer, .between, closed⟩ (.ofToken? (some token)) token.start) :
        Faults text (token :: ts) f := by
      rw [hf]
      exact .unexpected List.suffix_rfl hkind
    simp only [step, stepBetween] at h
    split at h
    · cases h
    · cases h
    · rename_i k hkind
      split at h
      · cases h
      · cases h
        exact hunexpected (by simp [hkind]) rfl
    · rename_i hkind
      split at h
      · cases h
      · cases h
        exact hunexpected (by simp [hkind]) rfl
    · rename_i hother _ _
      cases h
      exact hunexpected hother rfl
  | entering tag k =>
    intro htag gap hgap
    simp only [step, stepEntering] at h
    split at h
    · cases h
    · split at h <;> cases h
    · rename_i hblank hopening
      cases h
      exact .found List.suffix_rfl htag hgap hblank hopening
  | inside tag k opening depth => cases h

theorem faulty_of_finish (h : s.finish text = .error f) : s.Faulty text [] f := by
  obtain ⟨c, outer, mode, closed⟩ := s
  cases mode with
  | between =>
    simp only [finish] at h
    split at h
    · cases h
    · cases h
      exact .unfinished
  | entering tag k =>
    intro htag gap hgap
    cases h
    rw [List.append_nil]
    exact .atEnd List.suffix_rfl htag hgap
  | inside tag k opening depth =>
    cases h
    exact .inr ⟨rfl, rfl⟩

/-- A fault of the parser is about a token that is left to it. -/
theorem faulty_of_run (h : (run collapse text s ts).1 = .error f) : s.Faulty text ts f := by
  induction ts generalizing s with
  | nil => exact faulty_of_finish h
  | cons token ts ih =>
    rw [run] at h
    split at h
    · rename_i next hstep
      exact faulty_of_step hstep (ih h)
    · rename_i fault hstep
      cases h
      exact faulty_of_error hstep

end ParseState

/-- What a text begins with where a parser stops: the token that it did not expect, or what it
says about a block. -/
inductive Misread (v : Text) : Cause → Prop where
  | unexpected {accepted : List String} {found : Found}
      (h : .ofToken? (Lexer.document.tokens (Scheme.document.protect v)).head? = found) :
      Misread v (.unexpected accepted found)
  | block {problem : BlockProblem} (h : Text.Offends Lexer.document v problem) :
      Misread v (.block problem)

section Places

variable {t u v : Text} {n : Nat} {tag opening : Token} {k : Kind} {behind : List Token}

/-- A tag is at the place of its word. -/
theorem exists_word (ht : Scheme.document.fault? t = none)
    (htokens : tag :: behind <:+ Lexer.document.tokens (Scheme.document.protect t))
    (hkind : tag.kind = .tag k) : ∃ u v, Text.Place t u (k.word.toList ++ v) tag.start := by
  have hmeaning : tag.kind ≠ .other := by
    rw [hkind]
    exact nofun
  obtain ⟨u, v, hplace, hv⟩ := Text.Place.of_token ht htokens hmeaning
  rw [← List.singleton_append] at hv
  obtain ⟨v, _, rfl, -, -⟩ := hplace.pass hv (by simpa using hmeaning)
  rw [List.flatMap_singleton, Lexer.text_of_tag hv hkind] at hplace
  exact ⟨u, v, hplace⟩

/-- An opening brace that no token closes is closed by no character. -/
theorem offends_of_unclosed (h : Text.Place t u v n)
    (hv : Lexer.document.tokensFrom n (Scheme.document.protect v) = opening :: behind)
    (hopens : opening.kind = .blockStart) (hnone : (Token.closingBrace 0 behind).1 = none)
    (keyword : Text) : Text.Offends Lexer.document v (.unterminated keyword) := by
  have hl := Lexer.structural_document
  obtain ⟨c, rest, hrest, rfl⟩ := Lexer.eq_of_tokensFrom hv
  obtain rfl : c = '\x7b' := by
    by_cases hc : c = '\x7b'
    · exact hc
    · exact absurd hopens (hl.kind_ne_blockStart hc rest)
  obtain ⟨v, rfl, -, rfl⟩ := h.advance (w := ['\x7b']) hrest (by decide)
  rw [hrest, hl.tokensFrom_opening] at hv
  obtain ⟨-, rfl⟩ := List.cons.inj hv
  refine .unclosed rfl ?_
  rw [hl.closingBrace_tokensFrom] at hnone
  split at hnone
  · cases hnone
  · assumption

/-- A fault of a protected text is at a place of its source, where that stands which it is about. -/
theorem Faults.exists_place {f : ParseFault} (ht : Scheme.document.fault? t = none)
    (h : Faults (Scheme.document.protect t)
      (Lexer.document.tokens (Scheme.document.protect t)) f) :
    ∃ u v, Text.Place t u v f.offset ∧ Misread v f.cause := by
  cases h with
  | unexpected tokens kind =>
    obtain ⟨u, v, hplace, hv⟩ := Text.Place.of_token ht tokens kind
    exact ⟨u, v, hplace, .unexpected (by rw [Lexer.head?_tokens hv]; rfl)⟩
  | unfinished => exact ⟨t, [], .finish ht, .unexpected rfl⟩
  | atEnd tokens tagged =>
    obtain ⟨u, v, hplace⟩ := exists_word ht tokens tagged
    obtain ⟨_, _, -, hv⟩ := Text.Place.of_token ht tokens (by rw [tagged]; exact nofun)
    refine ⟨u, _, hplace, .block (.atEnd ?_)⟩
    rw [Lexer.text_of_tag hv tagged]
    exact List.prefix_append _ v
  | @found tag token gap behind k tokens tagged blanks blank opening =>
    have hmeaning : ∀ token ∈ tag :: gap, token.kind ≠ .other := by
      rw [List.forall_mem_cons, tagged]
      refine ⟨nofun, fun token htoken => ?_⟩
      rw [blanks token htoken]
      exact nofun
    obtain ⟨u, v, htag, hv⟩ := Text.Place.of_token ht tokens (by rw [tagged]; exact nofun)
    rw [← List.cons_append] at hv
    obtain ⟨v', m, -, hplace, hv'⟩ := htag.pass hv hmeaning
    have hstart : m = token.start := by
      obtain ⟨c, rest, -, rfl⟩ := Lexer.eq_of_tokensFrom hv'
      rfl
    subst hstart
    have hfound : Text.Offends Lexer.document v'
        (.expected tag.text (.ofToken? (some { token with start := 0 }))) :=
      .found (Lexer.head?_tokens hv') blank opening
    exact ⟨_, v', hplace, .block hfound⟩
  | unclosed tokens opens unclosed =>
    obtain ⟨u, v, hplace, hv⟩ := Text.Place.of_token ht tokens (by rw [opens]; exact nofun)
    exact ⟨u, v, hplace, .block (offends_of_unclosed hplace hv opens unclosed _)⟩

end Places

/-- What the parser refuses of a protected text is at a place of its source. -/
theorem exists_place_of_parse {collapse : Bool} {t : Text} {f : ParseFault}
    (ht : Scheme.document.fault? t = none)
    (h : (parse collapse (Scheme.document.protect t)).1 = .error f) :
    ∃ u v, Text.Place t u v f.offset ∧ Misread v f.cause :=
  Faults.exists_place ht (ParseState.faulty_of_run h)

/-! ## What a node is about -/

/-- The line of a node is that of its word in the source. -/
def Cited (t : Text) (tag : Token) (label : Label) : Prop :=
  ∃ u v, Text.Place t u (label.kind.word.toList ++ v) tag.start ∧ label.line = t.lineAt u.length

/-- Tokens that derive as trees, of which every node has the line of its tag in the source. -/
inductive Cites (t : Text) : List Token → Forest → Prop where
  | nil : Cites t [] .nil
  | noise {token : Token} {ts : List Token} {children : Forest}
      (kind : token.kind = .blank ∨ token.kind = .other) (rest : Cites t ts children) :
      Cites t (token :: ts) children
  | leaf {boxed : Bool} {label : Label} {tag opening closing : Token}
      {gap body ts : List Token} {children : Forest}
      (brackets : Brackets label.kind tag gap opening closing) (balanced : Balanced body)
      (cited : Cited t tag label) (rest : Cites t ts children) :
      Cites t (tag :: (gap ++ opening :: (body ++ closing :: ts)))
        (.cons boxed label .nil children)
  | container {boxed : Bool} {label : Label} {tag opening closing : Token}
      {gap body ts : List Token} {inner children : Forest}
      (brackets : Brackets label.kind tag gap opening closing) (cited : Cited t tag label)
      (inside : Cites t body inner) (rest : Cites t ts children) :
      Cites t (tag :: (gap ++ opening :: (body ++ closing :: ts)))
        (.cons boxed label inner children)

theorem cited_of_tag {t : Text} {tag : Token} {label : Label}
    (ht : Scheme.document.fault? t = none)
    (htag : tag ∈ Lexer.document.tokens (Scheme.document.protect t))
    (hkind : tag.kind = .tag label.kind)
    (hline : label.line = (Scheme.document.protect t).lineAt tag.start) : Cited t tag label := by
  obtain ⟨before, behind, hsplit⟩ := List.append_of_mem htag
  obtain ⟨u, v, hplace⟩ := exists_word ht ⟨before, hsplit.symm⟩ hkind
  refine ⟨u, v, hplace, ?_⟩
  rw [hline, hplace.lineAt_eq]

/-- The nodes that derive from the tokens of a protected text have lines of its source. -/
theorem cites_of_derives {collapse : Bool} {t : Text} {parent : Kind} {ts : List Token}
    {children : Forest} (ht : Scheme.document.fault? t = none)
    (hts : ts ⊆ Lexer.document.tokens (Scheme.document.protect t))
    (h : Derives collapse (Scheme.document.protect t) parent ts children) :
    Cites t ts children := by
  induction h with
  | nil => exact .nil
  | noise kind rest ih => exact .noise kind (ih (List.cons_subset.1 hts).2)
  | leaf accepts isLeaf brackets balanced rest ih =>
    simp only [List.cons_subset, List.append_subset] at hts
    obtain ⟨htag, -, -, -, -, hmore⟩ := hts
    exact .leaf brackets balanced (cited_of_tag ht htag brackets.tag rfl) (ih hmore)
  | container accepts isLeaf brackets inside rest ihinside ih =>
    simp only [List.cons_subset, List.append_subset] at hts
    obtain ⟨htag, -, -, hbody, -, hmore⟩ := hts
    exact .container brackets (cited_of_tag ht htag brackets.tag rfl) (ihinside hbody) (ih hmore)

end Document

end Bracemark
