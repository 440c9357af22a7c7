import Bracemark.Proofs.Blocks
import Bracemark.Proofs.Grammar

/-!
# The brace that closes a block

Behind a keyword a block is read with a counter. The block ends at the first token at which the
running depth, counted from the opening brace, is back at zero (`Token.Encloses`). `Token.Reading`
says what comes of reading a block, with a diagnostic wherever there is none, and reading comes to
just that (`Token.reported_iff`).

Where a block stands depends on the text alone (`Lexer.Structural.readBlock_eq_ok_iff`), so scanners
with different vocabularies find the same block from the same place. The parser of documents does
not read blocks but has a step for every token; for the block of a leaf this comes to the same
(`Document.ParseState.run_entering_leaf`).
-/

namespace Bracemark

namespace Token

/-! ## The running depth -/

/-- What a token adds to the number of blocks that are open. -/
def rise (t : Token) : Int :=
  match t.kind with
  | .blockStart => 1
  | .blockEnd => -1
  | _ => 0

/-- The number of blocks that tokens open, less those that they close. -/
def depth : List Token → Int
  | [] => 0
  | t :: ts => t.rise + depth ts

@[simp] theorem depth_nil : depth [] = 0 := rfl

@[simp] theorem depth_cons (t : Token) (ts : List Token) : depth (t :: ts) = t.rise + depth ts :=
  rfl

theorem rise_opening {t : Token} (h : t.kind = .blockStart) : t.rise = 1 := by
  simp only [rise, h]

theorem rise_closing {t : Token} (h : t.kind = .blockEnd) : t.rise = -1 := by
  simp only [rise, h]

theorem rise_of_ne {t : Token} (h : t.kind ≠ .blockStart ∧ t.kind ≠ .blockEnd) : t.rise = 0 := by
  unfold rise
  split
  · exact absurd ‹_› h.1
  · exact absurd ‹_› h.2
  · rfl

/-- From a running depth on, `closing` is a closing brace, and the first token at which the depth is
back at zero. -/
structure Returns (start : Int) (inner : List Token) (closing : Token) : Prop where
  closes : closing.kind = .blockEnd
  zero : start + depth (inner ++ [closing]) = 0
  first : ∀ p, p <+: inner → start + depth p ≠ 0

/-- From a running depth on, the depth is never zero. -/
def StaysOpen (start : Int) (ts : List Token) : Prop := ∀ p, p <+: ts → start + depth p ≠ 0

variable {start : Int} {t closing : Token} {inner ts after : List Token}

theorem staysOpen_nil (h : start ≠ 0) : StaysOpen start [] := by
  intro p hp
  rw [List.prefix_nil.1 hp, depth_nil, Int.add_zero]
  exact h

theorem staysOpen_cons_iff :
    StaysOpen start (t :: ts) ↔ start ≠ 0 ∧ StaysOpen (start + t.rise) ts := by
  constructor
  · intro h
    refine ⟨by simpa using h [] List.nil_prefix, fun p hp => ?_⟩
    have := h (t :: p) (List.cons_prefix_cons.2 ⟨rfl, hp⟩)
    rwa [depth_cons, ← Int.add_assoc] at this
  · rintro ⟨hstart, hrest⟩ p hp
    cases p with
    | nil => simpa using hstart
    | cons x p =>
      obtain ⟨rfl, hprefix⟩ := List.cons_prefix_cons.1 hp
      rw [depth_cons, ← Int.add_assoc]
      exact hrest p hprefix

theorem returns_nil_iff :
    Returns start [] closing ↔ closing.kind = .blockEnd ∧ start = 1 := by
  constructor
  · rintro ⟨hcloses, hzero, -⟩
    rw [List.nil_append, depth_cons, depth_nil, rise_closing hcloses] at hzero
    exact ⟨hcloses, by omega⟩
  · rintro ⟨hcloses, rfl⟩
    refine ⟨hcloses, ?_, staysOpen_nil (by decide)⟩
    rw [List.nil_append, depth_cons, depth_nil, rise_closing hcloses]
    rfl

theorem returns_cons_iff :
    Returns start (t :: inner) closing ↔ start ≠ 0 ∧ Returns (start + t.rise) inner closing := by
  constructor
  · rintro ⟨hcloses, hzero, hfirst⟩
    obtain ⟨hstart, hrest⟩ := staysOpen_cons_iff.1 hfirst
    rw [List.cons_append, depth_cons, ← Int.add_assoc] at hzero
    exact ⟨hstart, hcloses, hzero, hrest⟩
  · rintro ⟨hstart, hcloses, hzero, hrest⟩
    refine ⟨hcloses, ?_, staysOpen_cons_iff.2 ⟨hstart, hrest⟩⟩
    rw [List.cons_append, depth_cons, ← Int.add_assoc]
    exact hzero

/-- The first of some tokens closes the block, or the block is closed among those behind it. -/
theorem exists_returns_cons_iff :
    (∃ inner, t :: ts = inner ++ closing :: after ∧ Returns start inner closing) ↔
      (t = closing ∧ ts = after ∧ t.kind = .blockEnd ∧ start = 1) ∨
      start ≠ 0 ∧ ∃ inner, ts = inner ++ closing :: after ∧
        Returns (start + t.rise) inner closing := by
  constructor
  · rintro ⟨inner, heq, hreturns⟩
    cases inner with
    | nil =>
      obtain ⟨rfl, rfl⟩ := List.cons.inj heq
      exact .inl ⟨rfl, rfl, returns_nil_iff.1 hreturns⟩
    | cons x inner =>
      obtain ⟨rfl, rfl⟩ := List.cons.inj heq
      obtain ⟨hstart, hreturns⟩ := returns_cons_iff.1 hreturns
      exact .inr ⟨hstart, inner, rfl, hreturns⟩
  · rintro (⟨rfl, rfl, hreturns⟩ | ⟨hstart, inner, rfl, hreturns⟩)
    · exact ⟨[], rfl, returns_nil_iff.2 hreturns⟩
    · exact ⟨t :: inner, rfl, returns_cons_iff.2 ⟨hstart, hreturns⟩⟩

/-! ## The closing brace -/

/-- What a counter does at one token: the block ends, or the counter goes up or down with the running
depth. -/
theorem closingBrace_cons (n : Nat) (t : Token) (ts : List Token) :
    (t.kind = .blockEnd ∧ n = 0 ∧ closingBrace n (t :: ts) = (some t, ts)) ∨
    ¬(t.kind = .blockEnd ∧ n = 0) ∧
      ∃ m : Nat, (m : Int) = n + t.rise ∧ closingBrace n (t :: ts) = closingBrace m ts := by
  by_cases hopens : t.kind = .blockStart
  · refine .inr ⟨fun h => absurd (hopens.symm.trans h.1) nofun, n + 1, ?_, ?_⟩
    · rw [rise_opening hopens]
      rfl
    · rw [closingBrace.eq_def]
      simp only [hopens]
  by_cases hcloses : t.kind = .blockEnd
  · cases n with
    | zero =>
      refine .inl ⟨hcloses, rfl, ?_⟩
      rw [closingBrace.eq_def]
      simp only [hcloses]
    | succ m =>
      refine .inr ⟨fun h => Nat.succ_ne_zero m h.2, m, ?_, ?_⟩
      · rw [rise_closing hcloses]
        omega
      · rw [closingBrace.eq_def]
        simp only [hcloses]
  · refine .inr ⟨fun h => hcloses h.1, n, ?_, closingBrace_cons_of_ne ⟨hopens, hcloses⟩ n ts⟩
    rw [rise_of_ne ⟨hopens, hcloses⟩, Int.add_zero]

/-- A counter finds the closing brace at which the running depth is back at zero for the first
time. -/
theorem closingBrace_eq_some_iff {n : Nat} : closingBrace n ts = (some closing, after) ↔
    ∃ inner, ts = inner ++ closing :: after ∧ Returns (n + 1) inner closing := by
  induction ts generalizing n with
  | nil =>
    refine iff_of_false (fun h => nomatch h) ?_
    rintro ⟨inner, heq, -⟩
    simp at heq
  | cons t ts ih =>
    rw [exists_returns_cons_iff]
    rcases closingBrace_cons n t ts with ⟨hcloses, rfl, heq⟩ | ⟨hopen, m, hm, heq⟩
    · have hnone : ¬∃ inner, ts = inner ++ closing :: after ∧
          Returns ((0 : Nat) + 1 + t.rise) inner closing := by
        rintro ⟨inner, -, hreturns⟩
        have := hreturns.first [] List.nil_prefix
        rw [rise_closing hcloses] at this
        exact this rfl
      rw [heq, Prod.mk.injEq, Option.some.injEq]
      constructor
      · rintro ⟨rfl, rfl⟩
        exact .inl ⟨rfl, rfl, hcloses, rfl⟩
      · rintro (⟨rfl, rfl, -⟩ | ⟨-, hinner⟩)
        · exact ⟨rfl, rfl⟩
        · exact absurd hinner hnone
    · have hne : ¬(t = closing ∧ ts = after ∧ t.kind = .blockEnd ∧ (n : Int) + 1 = 1) := by
        rintro ⟨-, -, hcloses, hn⟩
        exact hopen ⟨hcloses, by omega⟩
      have hstart : (n : Int) + 1 ≠ 0 := by omega
      have hrise : (n : Int) + 1 + t.rise = m + 1 := by omega
      rw [heq, ih, hrise]
      constructor
      · intro hinner
        exact .inr ⟨hstart, hinner⟩
      · rintro (hhere | ⟨-, hinner⟩)
        · exact absurd hhere hne
        · exact hinner

/-- A counter finds no closing brace if the running depth never is back at zero, and comes to the
end of the tokens. -/
theorem closingBrace_eq_none_iff {n : Nat} :
    closingBrace n ts = (none, after) ↔ after = [] ∧ StaysOpen (n + 1) ts := by
  induction ts generalizing n with
  | nil =>
    have hstays : StaysOpen (n + 1) [] := staysOpen_nil (by omega)
    simp [closingBrace, hstays, eq_comm]
  | cons t ts ih =>
    have hstart : (n : Int) + 1 ≠ 0 := by omega
    rw [staysOpen_cons_iff]
    rcases closingBrace_cons n t ts with ⟨hcloses, rfl, heq⟩ | ⟨-, m, hm, heq⟩
    · refine iff_of_false (fun h => ?_) ?_
      · rw [heq] at h
        cases h
      · rintro ⟨-, -, hstays⟩
        have := hstays [] List.nil_prefix
        rw [rise_closing hcloses] at this
        exact this rfl
    · have hrise : (n : Int) + 1 + t.rise = m + 1 := by omega
      rw [heq, ih, hrise]
      simp [hstart]

/-! ## Reading a block -/

theorem nextSignificant_append {gap : List Token} (h : ∀ x ∈ gap, x.kind = .blank)
    (ts : List Token) : nextSignificant (gap ++ ts) = nextSignificant ts := by
  induction gap with
  | nil => rfl
  | cons x gap ih =>
    obtain ⟨hx, hgap⟩ := List.forall_mem_cons.1 h
    rw [List.cons_append, nextSignificant, if_pos hx, ih hgap]

/-- Tokens are blank, or there is a first one that is not. -/
theorem exists_significant (ts : List Token) : (∀ x ∈ ts, x.kind = .blank) ∨
    ∃ gap found rest, ts = gap ++ found :: rest ∧ (∀ x ∈ gap, x.kind = .blank) ∧
      found.kind ≠ .blank := by
  induction ts with
  | nil => exact .inl nofun
  | cons t ts ih =>
    by_cases ht : t.kind = .blank
    · rcases ih with hall | ⟨gap, found, rest, rfl, hgap, hfound⟩
      · exact .inl (List.forall_mem_cons.2 ⟨ht, hall⟩)
      · exact .inr ⟨t :: gap, found, rest, rfl, List.forall_mem_cons.2 ⟨ht, hgap⟩, hfound⟩
    · exact .inr ⟨[], t, ts, rfl, nofun, ht⟩

/-- From an opening brace on, `closing` is the first token at which the running depth is back at
zero. -/
structure Encloses (opening : Token) (inner : List Token) (closing : Token) : Prop where
  opens : opening.kind = .blockStart
  closes : closing.kind = .blockEnd
  zero : depth (opening :: (inner ++ [closing])) = 0
  first : ∀ p, p <+: inner → depth (opening :: p) ≠ 0

theorem encloses_iff {opening : Token} :
    Encloses opening inner closing ↔ opening.kind = .blockStart ∧ Returns 1 inner closing := by
  constructor
  · rintro ⟨hopens, hcloses, hzero, hfirst⟩
    simp only [depth_cons, rise_opening hopens] at hzero hfirst
    exact ⟨hopens, hcloses, hzero, hfirst⟩
  · rintro ⟨hopens, hcloses, hzero, hfirst⟩
    refine ⟨hopens, hcloses, ?_, fun p hp => ?_⟩
    · rwa [depth_cons, rise_opening hopens]
    · rw [depth_cons, rise_opening hopens]
      exact hfirst p hp

/-- What a component of an area has from reading a block behind a keyword, and the tokens that are
left: the block, or a diagnostic about the text of a file. -/
inductive Reading (area : Area) (file text : Text) (keyword : Token) :
    List Token → Except Diagnostic Block → List Token → Prop where
  | block {gap inner after : List Token} {opening closing : Token}
      (blank : ∀ x ∈ gap, x.kind = .blank) (encloses : Encloses opening inner closing) :
      Reading area file text keyword (gap ++ opening :: (inner ++ closing :: after))
        (.ok ⟨opening.stop, closing.start⟩) after
  | ended {gap : List Token} (blank : ∀ x ∈ gap, x.kind = .blank) :
      Reading area file text keyword gap (.error ⟨area, file, some (text.lineAt keyword.start),
        .block (.expected keyword.text .endOfInput)⟩) []
  | other {gap rest : List Token} {found : Token} (blank : ∀ x ∈ gap, x.kind = .blank)
      (kind : found.kind ≠ .blank ∧ found.kind ≠ .blockStart) :
      Reading area file text keyword (gap ++ found :: rest)
        (.error ⟨area, file, some (text.lineAt found.start),
          .block (.expected keyword.text (.ofToken? (some found)))⟩) rest
  | unclosed {gap rest : List Token} {opening : Token} (blank : ∀ x ∈ gap, x.kind = .blank)
      (opens : opening.kind = .blockStart) (never : ∀ p, p <+: rest → depth (opening :: p) ≠ 0) :
      Reading area file text keyword (gap ++ opening :: rest)
        (.error ⟨area, file, some (text.lineAt opening.start),
          .block (.unterminated keyword.text)⟩) []

/-- A block as a component of an area reads it from the tokens of a text in a file. -/
def reported (area : Area) (file text : Text) (keyword : Token) (ts : List Token) :
    Except Diagnostic Block × List Token :=
  match keyword.readBlock ts with
  | .ok b after => (.ok b, after)
  | .error f after => (.error (.ofBlockFault area file text f), after)

section Reported

variable (area : Area) (file text : Text) (keyword : Token)

theorem reported_append {gap : List Token} (h : ∀ x ∈ gap, x.kind = .blank) (ts : List Token) :
    reported area file text keyword (gap ++ ts) = reported area file text keyword ts := by
  unfold reported readBlock expectBlock
  rw [nextSignificant_append h]

theorem reported_nil : reported area file text keyword [] =
    (.error ⟨area, file, some (text.lineAt keyword.start),
      .block (.expected keyword.text .endOfInput)⟩, []) := rfl

theorem reported_other {found : Token} (h : found.kind ≠ .blank ∧ found.kind ≠ .blockStart)
    (rest : List Token) : reported area file text keyword (found :: rest) =
      (.error ⟨area, file, some (text.lineAt found.start),
        .block (.expected keyword.text (.ofToken? (some found)))⟩, rest) := by
  unfold reported readBlock expectBlock
  simp only [nextSignificant, if_neg h.1, if_neg h.2]
  rfl

theorem reported_opening {opening : Token} (h : opening.kind = .blockStart) (rest : List Token) :
    reported area file text keyword (opening :: rest) =
      match closingBrace 0 rest with
      | (some closing, after) => (.ok ⟨opening.stop, closing.start⟩, after)
      | (none, after) => (.error ⟨area, file, some (text.lineAt opening.start),
          .block (.unterminated keyword.text)⟩, after) := by
  have hblank : opening.kind ≠ .blank := by
    rw [h]
    exact nofun
  unfold reported readBlock expectBlock
  simp only [nextSignificant, if_neg hblank, if_pos h]
  cases closingBrace 0 rest with
  | mk closing? after => cases closing? <;> rfl

/-- What is read has a reading. -/
theorem reading_reported (ts : List Token) :
    Reading area file text keyword ts (reported area file text keyword ts).1
      (reported area file text keyword ts).2 := by
  rcases exists_significant ts with hblank | ⟨gap, found, rest, rfl, hblank, hfound⟩
  · rw [← List.append_nil ts, reported_append _ _ _ _ hblank, reported_nil, List.append_nil]
    exact .ended hblank
  rw [reported_append _ _ _ _ hblank]
  by_cases hopens : found.kind = .blockStart
  · rw [reported_opening _ _ _ _ hopens]
    cases hclosing : closingBrace 0 rest with
    | mk closing? after =>
      cases closing? with
      | some closing =>
        obtain ⟨inner, rfl, hreturns⟩ := closingBrace_eq_some_iff.1 hclosing
        exact .block hblank (encloses_iff.2 ⟨hopens, hreturns⟩)
      | none =>
        obtain ⟨rfl, hstays⟩ := closingBrace_eq_none_iff.1 hclosing
        refine .unclosed hblank hopens fun p hp => ?_
        rw [depth_cons, rise_opening hopens]
        exact hstays p hp
  · rw [reported_other _ _ _ _ ⟨hfound, hopens⟩]
    exact .other hblank ⟨hfound, hopens⟩

/-- There is one reading. -/
theorem reported_of_reading {ts after : List Token} {r : Except Diagnostic Block}
    (h : Reading area file text keyword ts r after) :
    reported area file text keyword ts = (r, after) := by
  cases h with
  | block hblank hencloses =>
    obtain ⟨hopens, hreturns⟩ := encloses_iff.1 hencloses
    rw [reported_append _ _ _ _ hblank, reported_opening _ _ _ _ hopens,
      closingBrace_eq_some_iff.2 ⟨_, rfl, hreturns⟩]
  | ended hblank => rw [← List.append_nil ts, reported_append _ _ _ _ hblank, reported_nil]
  | other hblank hkind => rw [reported_append _ _ _ _ hblank, reported_other _ _ _ _ hkind]
  | @unclosed gap rest opening hblank hopens hnever =>
    have hstays : StaysOpen ((0 : Nat) + 1) rest := fun p hp => by
      have := hnever p hp
      rwa [depth_cons, rise_opening hopens] at this
    rw [reported_append _ _ _ _ hblank, reported_opening _ _ _ _ hopens,
      closingBrace_eq_none_iff.2 ⟨rfl, hstays⟩]

theorem reported_iff {ts after : List Token} {r : Except Diagnostic Block} :
    reported area file text keyword ts = (r, after) ↔
      Reading area file text keyword ts r after := by
  constructor
  · intro h
    have := reading_reported area file text keyword ts
    rwa [h] at this
  · exact reported_of_reading area file text keyword

end Reported

/-! ## The place of a block -/

/-- The offset in a text in front of the tokens that are left. -/
def cursor (t : Text) : List Token → Nat
  | [] => t.length
  | token :: _ => token.start

end Token

namespace Lexer

/-- The tokens that are left are those of what is left of the text. -/
theorem exists_drop_tokens (lexer : Lexer) (t : Text) (i : Nat) :
    ∃ u y, t = u ++ y ∧ (lexer.tokens t).drop i = lexer.tokensFrom u.length y ∧
      Token.cursor t ((lexer.tokens t).drop i) = u.length := by
  have hsplit : lexer.tokensFrom 0 t = (lexer.tokens t).take i ++ (lexer.tokens t).drop i :=
    (List.take_append_drop i _).symm
  obtain ⟨y, ht, hdrop⟩ := tokensFrom_eq_append hsplit
  rw [Nat.zero_add] at hdrop
  refine ⟨_, y, ht, hdrop, ?_⟩
  rw [hdrop]
  cases y with
  | nil => rw [List.append_nil] at ht; exact congrArg List.length ht
  | cons c rest =>
    rw [tokensFrom_cons]
    rfl

namespace Structural

variable {lexer : Lexer} (hl : lexer.Structural)

include hl in
/-- A block is read where the text goes on with blanks and an opening brace that is closed, and it
stands where these say. -/
theorem readBlock_eq_ok_iff {keyword : Token} {start : Nat} {y : Text} {b : Block}
    {after : List Token} : keyword.readBlock (lexer.tokensFrom start y) = .ok b after ↔
      ∃ rest inner v, y.dropWhile isBlank = '\x7b' :: rest ∧
        Text.closing 0 rest = some (inner, v) ∧
        b = ⟨start + (y.takeWhile isBlank).length + 1,
          start + (y.takeWhile isBlank).length + 1 + inner.length⟩ ∧
        after = lexer.tokensFrom (start + (y.takeWhile isBlank).length + 1 + inner.length + 1) v := by
  constructor
  · intro h
    cases hd : y.dropWhile isBlank with
    | nil =>
      unfold Token.readBlock Token.expectBlock at h
      rw [hl.nextSignificant_tokensFrom, hd] at h
      cases h
    | cons c rest =>
      by_cases hc : c = '\x7b'
      · subst hc
        rw [hl.readBlock_of_brace keyword start hd] at h
        split at h
        · rename_i inner v hs
          cases h
          exact ⟨rest, inner, v, rfl, hs, rfl, rfl⟩
        · cases h
      · have hblank : isBlank c = false := by
          have hne : y.dropWhile isBlank ≠ [] := by
            rw [hd]
            exact List.cons_ne_nil c rest
          have := List.head_dropWhile_not isBlank hne
          simpa only [hd, List.head_cons] using this
        unfold Token.readBlock Token.expectBlock at h
        rw [hl.nextSignificant_tokensFrom, hd, hl.nextSignificant_of_notBlank hblank] at h
        simp only [if_neg (hl.kind_ne_blockStart hc rest)] at h
        cases h
  · rintro ⟨rest, inner, v, hd, hs, rfl, rfl⟩
    rw [hl.readBlock_of_brace keyword start hd, hs]

end Structural

end Lexer

/-! ## The parser -/

namespace Document.ParseState

variable {collapse : Bool} {text : Text} {c : Container} {outer : List Container}
  {closed : List (Kind × Nat)} {kind : Kind} {tag opening : Token}

/-- Inside of a leaf the parser counts as the reader of blocks does. -/
theorem run_inside (n : Nat) (ts : List Token) :
    run collapse text ⟨c, outer, .inside tag kind opening n, closed⟩ ts =
      match Token.closingBrace n ts with
      | (some closing, after) => run collapse text
          ⟨c.add (leaf collapse text tag kind ⟨opening.stop, closing.start⟩), outer, .between, closed⟩
          after
      | (none, _) => (.error ⟨.block (.unterminated tag.text), opening.start⟩, closed.reverse) := by
  induction ts generalizing n with
  | nil => rfl
  | cons t ts ih =>
    by_cases hopens : t.kind = .blockStart
    · rw [run_of_step ⟨c, outer, .inside tag kind opening (n + 1), closed⟩, ih,
        Token.closingBrace.eq_def n (t :: ts)]
      · simp only [hopens]
      · simp only [step, stepInside, hopens]
    by_cases hcloses : t.kind = .blockEnd
    · cases n with
      | zero =>
        rw [run_of_step ⟨c.add (leaf collapse text tag kind ⟨opening.stop, t.start⟩), outer, .between,
          closed⟩, Token.closingBrace.eq_def 0 (t :: ts)]
        · simp only [hcloses]
        · simp only [step, stepInside, hcloses]
          rfl
      | succ n =>
        rw [run_of_step ⟨c, outer, .inside tag kind opening n, closed⟩, ih,
          Token.closingBrace.eq_def (n + 1) (t :: ts)]
        · simp only [hcloses]
        · simp only [step, stepInside, hcloses]
    · rw [run_of_step ⟨c, outer, .inside tag kind opening n, closed⟩, ih,
        Token.closingBrace_cons_of_ne ⟨hopens, hcloses⟩]
      simp only [step, stepInside_of_ne ⟨hopens, hcloses⟩]

/-- Behind the tag of a leaf the parser finds the block that the reader of blocks finds, or refuses
what the reader refuses. -/
theorem run_entering_leaf (hleaf : kind.isLeaf = true) (ts : List Token) :
    run collapse text ⟨c, outer, .entering tag kind, closed⟩ ts =
      match tag.readBlock ts with
      | .ok b after => run collapse text
          ⟨c.add (leaf collapse text tag kind b), outer, .between, closed⟩ after
      | .error f _ => (.error ⟨.block f.problem, f.offset⟩, closed.reverse) := by
  unfold Token.readBlock Token.expectBlock
  rcases Token.exists_significant ts with hblank | ⟨gap, found, rest, rfl, hblank, hfound⟩
  · rw [← List.append_nil ts, run_gap hblank, Token.nextSignificant_append hblank]
    rfl
  have hnext : Token.nextSignificant (gap ++ found :: rest) = (some found, rest) := by
    rw [Token.nextSignificant_append hblank, Token.nextSignificant, if_neg hfound]
  rw [run_gap hblank, hnext]
  by_cases hopens : found.kind = .blockStart
  · rw [run_of_step ⟨c, outer, .inside tag kind found 0, closed⟩, run_inside]
    · simp only [if_pos hopens]
      cases Token.closingBrace 0 rest with
      | mk closing? after => cases closing? <;> rfl
    · simp only [step, stepEntering, hopens, hleaf, if_true]
  · simp only [if_neg hopens]
    rw [run]
    simp only [step, stepEntering]

end Document.ParseState

/-! ## Reading blocks from anywhere -/

/-- From any place of a text, a block is read if an opening brace comes next but for blanks, and if
it is closed. It ends at the brace that closes it, where the running depth is back at zero for the
first time, so the braces of its interior match, and what is left begins behind it. Otherwise there is
a diagnostic about what was found or what was not closed. Both scanners of markup find the same block
from the same offset, and so does the parser behind the tag of a leaf. -/
theorem Token.readBlock_matching {lexer : Lexer} (hlexer : lexer = .directive ∨ lexer = .document)
    (t : Text) (i : Nat) (keyword : Token) :
    (∀ area file r after,
      reported area file t keyword ((lexer.tokens t).drop i) = (r, after) ↔
        Reading area file t keyword ((lexer.tokens t).drop i) r after) ∧
    (∀ b after, keyword.readBlock ((lexer.tokens t).drop i) = .ok b after →
      ∃ u inner v : Text, t = u ++ '\x7b' :: (inner ++ '\x7d' :: v) ∧ inner.Nested ∧
        b.interior t = inner ∧
        b.start = u.length + 1 ∧ b.stop = b.start + inner.length ∧ b.past = b.stop + 1 ∧
        after = lexer.tokensFrom b.past v) ∧
    (∀ other : Lexer, other = .directive ∨ other = .document → ∀ (j : Nat) (tag : Token),
      cursor t ((lexer.tokens t).drop i) = cursor t ((other.tokens t).drop j) →
      ∀ b, (∃ after, keyword.readBlock ((lexer.tokens t).drop i) = .ok b after) ↔
        ∃ after, tag.readBlock ((other.tokens t).drop j) = .ok b after) ∧
    (∀ collapse c outer closed kind, kind.isLeaf = true →
      Document.ParseState.run collapse t ⟨c, outer, .entering keyword kind, closed⟩
          ((lexer.tokens t).drop i) =
        match keyword.readBlock ((lexer.tokens t).drop i) with
        | .ok b after => Document.ParseState.run collapse t
            ⟨c.add (Document.ParseState.leaf collapse t keyword kind b), outer, .between, closed⟩ after
        | .error f _ => (.error ⟨.block f.problem, f.offset⟩, closed.reverse)) ∧
    (∀ word found, (Cause.block (.expected word found)).message =
      "expected block start after " ++ String.ofList word ++ ", found " ++ found.describe) ∧
    ∀ word, (Cause.block (.unterminated word)).message =
      "unterminated block after " ++ String.ofList word := by
  obtain ⟨u, y, rfl, hdrop, hcursor⟩ := lexer.exists_drop_tokens t i
  refine ⟨fun area file r after => reported_iff .., ?_, ?_,
    fun collapse c outer closed kind hleaf => Document.ParseState.run_entering_leaf hleaf _,
    fun word found => rfl, fun word => rfl⟩
  · intro b after h
    rw [hdrop, (Lexer.structural_of_markup hlexer).readBlock_eq_ok_iff] at h
    obtain ⟨rest, inner, v, hd, hs, rfl, rfl⟩ := h
    obtain ⟨rfl, hnested⟩ := Text.eq_of_closing hs
    have hy : y = y.takeWhile isBlank ++ '\x7b' :: (inner ++ '\x7d' :: v) := by
      rw [← hd, List.takeWhile_append_dropWhile]
    have hlength : u.length + (y.takeWhile isBlank).length = (u ++ y.takeWhile isBlank).length :=
      List.length_append.symm
    have hsplit : u ++ y = u ++ y.takeWhile isBlank ++ '\x7b' :: (inner ++ '\x7d' :: v) := by
      rw [List.append_assoc, ← hy]
    refine ⟨u ++ y.takeWhile isBlank, inner, v, hsplit, hnested, ?_, ?_, rfl, rfl, rfl⟩
    · have := Text.slice_append (u ++ y.takeWhile isBlank ++ ['\x7b']) inner ('\x7d' :: v)
      rw [List.length_append, List.length_singleton, ← hlength] at this
      rw [Block.interior, hsplit]
      simpa only [List.append_assoc, List.cons_append, List.nil_append] using this
    · rw [hlength]
  · intro other hother j tag heq b
    obtain ⟨u', y', ht, hdrop', hcursor'⟩ := other.exists_drop_tokens (u ++ y) j
    -- the same offset leaves the same text
    obtain ⟨rfl, rfl⟩ := List.append_inj ht (hcursor.symm.trans (heq.trans hcursor'))
    rw [hdrop, hdrop']
    simp only [(Lexer.structural_of_markup hlexer).readBlock_eq_ok_iff,
      (Lexer.structural_of_markup hother).readBlock_eq_ok_iff]
    constructor
    · rintro ⟨_, rest, inner, v, hd, hs, hb, -⟩
      exact ⟨_, rest, inner, v, hd, hs, hb, rfl⟩
    · rintro ⟨_, rest, inner, v, hd, hs, hb, -⟩
      exact ⟨_, rest, inner, v, hd, hs, hb, rfl⟩

/-- A block inside of a block, read with either scanner, and one that nothing closes. -/
theorem Token.readBlock_matching_nested :
    (Lexer.directive = .directive ∨ Lexer.directive = .document) ∧
    (∃ after, readBlock ⟨.directive .link, 0, ".link".toList⟩
      ((Lexer.directive.tokens ".link \x7ba\x7bb\x7dc\x7d\x7b".toList).drop 1) = .ok ⟨7, 12⟩ after) ∧
    (∃ after, readBlock ⟨.other, 1, "link".toList⟩
      ((Lexer.document.tokens ".link \x7ba\x7bb\x7dc\x7d\x7b".toList).drop 2) = .ok ⟨7, 12⟩ after) ∧
    Reading .directive "f".toList ".link \x7ba\x7bb\x7dc\x7d\x7b".toList
      ⟨.directive .link, 0, ".link".toList⟩
      ((Lexer.directive.tokens ".link \x7ba\x7bb\x7dc\x7d\x7b".toList).drop 9)
      (.error ⟨.directive, "f".toList, some 1, .block (.unterminated ".link".toList)⟩) [] := by
  obtain ⟨-, -, hscanners, -⟩ := Token.readBlock_matching (.inl rfl)
    ".link \x7ba\x7bb\x7dc\x7d\x7b".toList 1 ⟨.directive .link, 0, ".link".toList⟩
  obtain ⟨hreading, -⟩ := Token.readBlock_matching (.inl rfl)
    ".link \x7ba\x7bb\x7dc\x7d\x7b".toList 9 ⟨.directive .link, 0, ".link".toList⟩
  have hblock : ∃ after, readBlock ⟨.directive .link, 0, ".link".toList⟩
      ((Lexer.directive.tokens ".link \x7ba\x7bb\x7dc\x7d\x7b".toList).drop 1) =
        .ok ⟨7, 12⟩ after := ⟨_, rfl⟩
  exact ⟨.inl rfl, hblock,
    (hscanners .document (.inr rfl) 2 ⟨.other, 1, "link".toList⟩ rfl _).1 hblock,
    (hreading _ _ _ _).1 rfl⟩

end Bracemark
