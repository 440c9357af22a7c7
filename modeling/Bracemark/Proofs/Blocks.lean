import Bracemark.Proofs.Lexemes
import Bracemark.Proofs.Protection
import Bracemark.Proofs.Runs
import Bracemark.Token.Block

/-!
# Blocks of a text

Blocks are read off tokens. Here the same reading is done on the text alone:
`Text.closing` splits a text at the brace that closes a block, and `Text.readBlocks` reads
the blocks behind a keyword. Both structural scanners give tokens on which the readers of
tokens do just that (`closingBrace_tokensFrom`, `readBlocks_tokensFrom`).

`Text.level` counts the blocks that are open behind a text. A text is nested if its braces
match in order.
-/

namespace Bracemark

namespace Text

/-! ## Nesting -/

/-- The number of blocks that are open behind a text if `depth` are open in front of it;
none if the text closes more than that. -/
def level : Nat → Text → Option Nat
  | depth, [] => some depth
  | depth, c :: rest =>
    if c = '\x7b' then level (depth + 1) rest
    else if c = '\x7d' then
      match depth with
      | 0 => none
      | inner + 1 => level inner rest
    else level depth rest

/-- A text whose braces match in order. -/
def Nested (t : Text) : Prop := t.level 0 = some 0

instance (t : Text) : Decidable t.Nested := inferInstanceAs (Decidable (t.level 0 = some 0))

/-- Induction on a text, with a case for each brace and one for any other character. -/
@[elab_as_elim]
theorem brace_induction {motive : Text → Prop} (nil : motive [])
    (opening : ∀ rest, motive rest → motive ('\x7b' :: rest))
    (closing : ∀ rest, motive rest → motive ('\x7d' :: rest))
    (other : ∀ c rest, isBrace c = false → motive rest → motive (c :: rest)) (t : Text) :
    motive t := by
  induction t with
  | nil => exact nil
  | cons c rest ih =>
    cases hc : isBrace c with
    | false => exact other c rest hc ih
    | true =>
      rcases eq_of_isBrace hc with rfl | rfl
      · exact opening rest ih
      · exact closing rest ih

theorem ne_of_isBrace_false {c : Char} (hc : isBrace c = false) : c ≠ '\x7b' ∧ c ≠ '\x7d' := by
  simpa only [isBrace, Bool.or_eq_false_iff, decide_eq_false_iff_not] using hc

@[simp] theorem level_nil (depth : Nat) : level depth [] = some depth := rfl

@[simp] theorem level_opening (depth : Nat) (t : Text) :
    level depth ('\x7b' :: t) = level (depth + 1) t := rfl

@[simp] theorem level_closing_zero (t : Text) : level 0 ('\x7d' :: t) = none := rfl

@[simp] theorem level_closing (depth : Nat) (t : Text) :
    level (depth + 1) ('\x7d' :: t) = level depth t := rfl

theorem level_cons_of_isBrace_false {c : Char} (hc : isBrace c = false) (depth : Nat) (t : Text) :
    level depth (c :: t) = level depth t := by
  obtain ⟨ho, hc⟩ := ne_of_isBrace_false hc
  rw [level.eq_def]
  simp only [if_neg ho, if_neg hc]

theorem level_append (u v : Text) (depth : Nat) :
    level depth (u ++ v) = (level depth u).bind fun e => level e v := by
  induction u using brace_induction generalizing depth with
  | nil => rfl
  | opening u ih => exact ih (depth + 1)
  | closing u ih =>
    cases depth with
    | zero => rfl
    | succ inner => exact ih inner
  | other c u hc ih =>
    rw [List.cons_append, level_cons_of_isBrace_false hc, level_cons_of_isBrace_false hc, ih]

/-- More blocks around a text stay open behind it. -/
theorem level_add {t : Text} {depth e : Nat} (h : level depth t = some e) (k : Nat) :
    level (depth + k) t = some (e + k) := by
  induction t using brace_induction generalizing depth with
  | nil =>
    rw [level_nil, Option.some.injEq] at h
    rw [level_nil, h]
  | opening t ih =>
    rw [level_opening, Nat.add_right_comm]
    exact ih h
  | closing t ih =>
    cases depth with
    | zero => cases h
    | succ inner =>
      rw [Nat.add_right_comm, level_closing]
      exact ih h
  | other c t hc ih =>
    rw [level_cons_of_isBrace_false hc] at h ⊢
    exact ih h

theorem level_of_noBrace {t : Text} (h : ∀ x ∈ t, isBrace x = false) (depth : Nat) :
    level depth t = some depth := by
  induction t with
  | nil => rfl
  | cons c t ih =>
    rw [level_cons_of_isBrace_false (h c List.mem_cons_self)]
    exact ih fun x hx => h x (List.mem_cons_of_mem c hx)

/-- The braces of a text account for the change of its level. -/
theorem count_of_level {t : Text} {depth e : Nat} (h : level depth t = some e) :
    t.count '\x7b' + depth = t.count '\x7d' + e := by
  induction t using brace_induction generalizing depth with
  | nil =>
    rw [level_nil, Option.some.injEq] at h
    rw [h]
    rfl
  | opening t ih =>
    have := ih h
    rw [List.count_cons_self, List.count_cons_of_ne (by decide)]
    omega
  | closing t ih =>
    cases depth with
    | zero => cases h
    | succ inner =>
      have := ih h
      rw [List.count_cons_self, List.count_cons_of_ne (by decide)]
      omega
  | other c t hc ih =>
    obtain ⟨hopening, hclosing⟩ := ne_of_isBrace_false hc
    rw [level_cons_of_isBrace_false hc] at h
    rw [List.count_cons_of_ne hopening, List.count_cons_of_ne hclosing]
    exact ih h

namespace Nested

theorem of_noBrace {t : Text} (h : ∀ x ∈ t, isBrace x = false) : t.Nested :=
  level_of_noBrace h 0

theorem append {t u : Text} (ht : t.Nested) (hu : u.Nested) : (t ++ u).Nested := by
  unfold Nested at *
  rw [level_append, ht]
  exact hu

theorem level {t : Text} (h : t.Nested) (depth : Nat) : t.level depth = some depth := by
  have := level_add h depth
  rwa [Nat.zero_add] at this

theorem block {t : Text} (h : t.Nested) : Text.Nested ('\x7b' :: t ++ ['\x7d']) := by
  unfold Nested
  rw [List.cons_append, level_opening, level_append, h.level]
  rfl

theorem braces_eq {t : Text} (h : t.Nested) : t.braces.1 = t.braces.2 := count_of_level h

end Nested

theorem Inert.noBrace {t : Text} (h : t.Inert) : ∀ x ∈ t, isBrace x = false := by
  intro x hx
  cases hb : isBrace x with
  | false => rfl
  | true => rcases eq_of_isBrace hb with rfl | rfl <;> cases h _ hx

theorem Inert.nested {t : Text} (h : t.Inert) : t.Nested := .of_noBrace h.noBrace

/-! ## Reading blocks -/

/-- Splits a text in front of which a block is open, and `depth` blocks inside that one, at
the brace that closes the block. -/
def closing : Nat → Text → Option (Text × Text)
  | _, [] => none
  | depth, c :: rest =>
    if c = '\x7b' then (closing (depth + 1) rest).map fun (i, a) => (c :: i, a)
    else if c = '\x7d' then
      match depth with
      | 0 => some ([], rest)
      | inner + 1 => (closing inner rest).map fun (i, a) => (c :: i, a)
    else (closing depth rest).map fun (i, a) => (c :: i, a)

theorem closing_opening (depth : Nat) (t : Text) :
    closing depth ('\x7b' :: t) =
      (closing (depth + 1) t).map fun (i, a) => ('\x7b' :: i, a) := rfl

theorem closing_closing (depth : Nat) (t : Text) :
    closing (depth + 1) ('\x7d' :: t) =
      (closing depth t).map fun (i, a) => ('\x7d' :: i, a) := rfl

theorem closing_cons_of_isBrace_false {c : Char} (hc : isBrace c = false) (depth : Nat)
    (t : Text) : closing depth (c :: t) = (closing depth t).map fun (i, a) => (c :: i, a) := by
  obtain ⟨ho, hc⟩ := ne_of_isBrace_false hc
  rw [closing.eq_def]
  simp only [if_neg ho, if_neg hc]

theorem closing_append {u : Text} {depth e : Nat} (h : level depth u = some e) (v : Text) :
    closing depth (u ++ v) = (closing e v).map fun (i, a) => (u ++ i, a) := by
  induction u using brace_induction generalizing depth with
  | nil =>
    rw [level_nil, Option.some.injEq] at h
    rw [h]
    exact Option.map_id'.symm
  | opening u ih =>
    rw [List.cons_append, closing_opening, ih h, Option.map_map]
    rfl
  | closing u ih =>
    cases depth with
    | zero => cases h
    | succ inner =>
      rw [List.cons_append, closing_closing, ih h, Option.map_map]
      rfl
  | other c u hc ih =>
    rw [level_cons_of_isBrace_false hc] at h
    rw [List.cons_append, closing_cons_of_isBrace_false hc, ih h, Option.map_map]
    rfl

/-- A nested text in front of a closing brace is the interior of the block. -/
theorem closing_of_nested {i : Text} (h : i.Nested) (a : Text) :
    closing 0 (i ++ '\x7d' :: a) = some (i, a) := by
  rw [closing_append h]
  show (some (i ++ [], a)) = _
  rw [List.append_nil]

theorem eq_of_closing {t i a : Text} {depth : Nat} (h : closing depth t = some (i, a)) :
    t = i ++ '\x7d' :: a ∧ level depth i = some 0 := by
  induction t using brace_induction generalizing depth i with
  | nil => cases h
  | opening t ih =>
    rw [closing_opening] at h
    obtain ⟨⟨j, b⟩, hj, he⟩ := Option.map_eq_some_iff.1 h
    cases he
    obtain ⟨rfl, hlevel⟩ := ih hj
    exact ⟨rfl, hlevel⟩
  | closing t ih =>
    cases depth with
    | zero =>
      cases h
      exact ⟨rfl, rfl⟩
    | succ inner =>
      rw [closing_closing] at h
      obtain ⟨⟨j, b⟩, hj, he⟩ := Option.map_eq_some_iff.1 h
      cases he
      obtain ⟨rfl, hlevel⟩ := ih hj
      exact ⟨rfl, hlevel⟩
  | other c t hc ih =>
    rw [closing_cons_of_isBrace_false hc] at h
    obtain ⟨⟨j, b⟩, hj, he⟩ := Option.map_eq_some_iff.1 h
    cases he
    obtain ⟨rfl, hlevel⟩ := ih hj
    exact ⟨rfl, by rw [level_cons_of_isBrace_false hc, hlevel]⟩

/-- The interior of the block that must come next, and what stands behind the block. The
text begins `offset` characters behind the start of the keyword, from which the offset of a
fault counts. -/
def readBlock (lexer : Lexer) (keyword : Text) (offset : Nat) (t : Text) :
    Except BlockFault (Text × Text) :=
  match t.dropWhile isBlank with
  | [] => .error ⟨.expected keyword .endOfInput, 0⟩
  | c :: rest =>
    let place := offset + (t.takeWhile isBlank).length
    if c = '\x7b' then
      match closing 0 rest with
      | some split => .ok split
      | none => .error ⟨.unterminated keyword, place⟩
    else .error ⟨.expected keyword (.ofToken? (lexer.tokens (c :: rest)).head?), place⟩

/-- The interiors of as many blocks as asked for, and what stands behind them. -/
def readBlocks (lexer : Lexer) (keyword : Text) :
    (number offset : Nat) → Text → Except BlockFault (List Text × Text)
  | 0, _, t => .ok ([], t)
  | n + 1, offset, t =>
    match readBlock lexer keyword offset t with
    | .error fault => .error fault
    | .ok (first, behind) =>
      match readBlocks lexer keyword n (offset + (t.length - behind.length)) behind with
      | .error fault => .error fault
      | .ok (others, after) => .ok (first :: others, after)

/-- A block is read behind blanks and an opening brace. -/
theorem closing_of_readBlock {lexer : Lexer} {keyword : Text} {offset : Nat} {t i a : Text}
    (h : readBlock lexer keyword offset t = .ok (i, a)) :
    ∃ rest, t.dropWhile isBlank = '\x7b' :: rest ∧ closing 0 rest = some (i, a) := by
  unfold readBlock at h
  split at h
  · cases h
  · rename_i c rest hd
    simp only at h
    split at h
    · rename_i hc
      subst hc
      split at h
      · rename_i hs
        cases h
        exact ⟨rest, hd, hs⟩
      · cases h
    · cases h

/-- What is read is the text up to what is left. -/
theorem eq_of_readBlock {lexer : Lexer} {keyword : Text} {offset : Nat} {t i a : Text}
    (h : readBlock lexer keyword offset t = .ok (i, a)) :
    t = t.takeWhile isBlank ++ '\x7b' :: i ++ '\x7d' :: a ∧ i.Nested := by
  obtain ⟨rest, hd, hs⟩ := closing_of_readBlock h
  obtain ⟨hr, hn⟩ := eq_of_closing hs
  refine ⟨?_, hn⟩
  rw [List.append_assoc, List.cons_append, ← hr, ← hd]
  exact List.takeWhile_append_dropWhile.symm

theorem suffix_of_readBlock {lexer : Lexer} {keyword : Text} {offset : Nat} {t i a : Text}
    (h : readBlock lexer keyword offset t = .ok (i, a)) : a <:+ t := by
  refine ⟨t.takeWhile isBlank ++ '\x7b' :: i ++ ['\x7d'], ?_⟩
  rw [List.append_assoc, List.singleton_append]
  exact (eq_of_readBlock h).1.symm

theorem suffix_of_readBlocks {lexer : Lexer} {keyword : Text} {n offset : Nat} {t a : Text}
    {is : List Text} (h : readBlocks lexer keyword n offset t = .ok (is, a)) : a <:+ t := by
  induction n generalizing offset t is with
  | zero =>
    cases h
    exact List.suffix_rfl
  | succ n ih =>
    rw [readBlocks] at h
    split at h
    · cases h
    · rename_i first behind hfirst
      split at h
      · cases h
      · rename_i others after hothers
        cases h
        exact (ih hothers).trans (suffix_of_readBlock hfirst)

end Text

/-! ## The tokens of blocks -/

namespace Token

theorem nextSignificant_suffix (ts : List Token) : (nextSignificant ts).2 <:+ ts := by
  induction ts with
  | nil => exact List.suffix_rfl
  | cons t rest ih =>
    rw [nextSignificant]
    split
    · exact ih.trans (List.suffix_cons t rest)
    · exact List.suffix_cons t rest

theorem closingBrace_suffix (depth : Nat) (ts : List Token) :
    (closingBrace depth ts).2 <:+ ts := by
  induction ts generalizing depth with
  | nil => exact List.suffix_rfl
  | cons t rest ih =>
    rw [closingBrace.eq_def]
    simp only
    split
    · exact (ih _).trans (List.suffix_cons t rest)
    · exact List.suffix_cons t rest
    · exact (ih _).trans (List.suffix_cons t rest)
    · exact (ih _).trans (List.suffix_cons t rest)

/-- A reader of blocks takes tokens from the front. -/
theorem readBlocks_suffix {keyword : Token} {n : Nat} {ts after : List Token} {bs : List Block}
    (h : keyword.readBlocks n ts = .ok bs after) : after <:+ ts := by
  induction n generalizing ts bs with
  | zero =>
    cases h
    exact List.suffix_rfl
  | succ n ih =>
    rw [readBlocks] at h
    obtain ⟨b, behind, hb, h⟩ := bind_eq_ok.1 h
    obtain ⟨bs, after, hbs, h⟩ := bind_eq_ok.1 h
    cases h
    refine (ih hbs).trans ?_
    unfold readBlock expectBlock at hb
    have hnext := nextSignificant_suffix ts
    split at hb
    · cases hb
    · rename_i opening rest hopen
      split at hopen
      · cases hopen
      · rename_i t rest' hsig
        rw [hsig] at hnext
        split at hopen
        · cases hopen
          have hclose := closingBrace_suffix 0 rest
          split at hb
          · rename_i hbrace
            cases hb
            rw [hbrace] at hclose
            exact hclose.trans hnext
          · cases hb
        · cases hopen

theorem closingBrace_opening (depth start : Nat) (text : Text) (rest : List Token) :
    closingBrace depth (⟨.blockStart, start, text⟩ :: rest) = closingBrace (depth + 1) rest := rfl

theorem closingBrace_closing (depth start : Nat) (text : Text) (rest : List Token) :
    closingBrace (depth + 1) (⟨.blockEnd, start, text⟩ :: rest) = closingBrace depth rest := rfl

theorem closingBrace_cons_of_ne {t : Token} (h : t.kind ≠ .blockStart ∧ t.kind ≠ .blockEnd)
    (depth : Nat) (rest : List Token) :
    closingBrace depth (t :: rest) = closingBrace depth rest := by
  rw [closingBrace.eq_def]
  simp only
  split
  · exact absurd ‹_› h.1
  · exact absurd ‹_› h.2
  · exact absurd ‹_› h.2
  · rfl

end Token

namespace Lexer.Structural

variable {lexer : Lexer} (hl : lexer.Structural)

include hl in
/-- The closing brace that is read off the tokens of a text is the one at which the text
splits. -/
theorem closingBrace_tokensFrom (depth start : Nat) (t : Text) :
    Token.closingBrace depth (lexer.tokensFrom start t) =
      match Text.closing depth t with
      | some (i, a) => (some ⟨.blockEnd, start + i.length, ['\x7d']⟩,
          lexer.tokensFrom (start + i.length + 1) a)
      | none => (none, []) := by
  induction t using segment_induction lexer generalizing depth start with
  | nil => rfl
  | cons c rest ih =>
    by_cases ho : c = '\x7b'
    · subst ho
      rw [hl.opening] at ih
      rw [hl.tokensFrom_opening, Token.closingBrace_opening, Text.closing_opening]
      refine (ih (depth + 1) (start + 1)).trans ?_
      rw [List.drop_zero]
      cases Text.closing (depth + 1) rest with
      | none => rfl
      | some split =>
        simp only [Option.map_some, List.length_cons, Nat.add_assoc, Nat.add_comm 1]
    by_cases hc : c = '\x7d'
    · subst hc
      rw [hl.closing] at ih
      rw [hl.tokensFrom_closing]
      cases depth with
      | zero => rfl
      | succ inner =>
        rw [Token.closingBrace_closing, Text.closing_closing]
        refine (ih inner (start + 1)).trans ?_
        rw [List.drop_zero]
        cases Text.closing inner rest with
        | none => rfl
        | some split =>
          simp only [Option.map_some, List.length_cons, Nat.add_assoc, Nat.add_comm 1]
    · -- any other lexeme has no brace in it, and the text is searched from behind it
      have hbrace : isBrace c = false := by
        rw [isBrace, decide_eq_false ho, decide_eq_false hc, Bool.or_false]
      have hw : ∀ x ∈ c :: rest.take (lexer c rest).2, isBrace x = false :=
        List.forall_mem_cons.2 ⟨hbrace, fun x => hl.isBrace_of_mem_take⟩
      rw [tokensFrom_cons, Token.closingBrace_cons_of_ne (hl.kind_ne c rest hbrace), ih]
      have hsplit : c :: rest =
          c :: rest.take (lexer c rest).2 ++ rest.drop (lexer c rest).2 := by
        rw [List.cons_append, List.take_append_drop]
      rw [hsplit, Text.closing_append (Text.level_of_noBrace hw depth)]
      cases Text.closing depth (rest.drop (lexer c rest).2) with
      | none => rfl
      | some split =>
        simp only [Option.map_some, List.length_append, List.length_cons, Nat.add_assoc,
          Nat.add_comm 1]

include hl in
theorem kind_ne_blockStart {c : Char} (hc : c ≠ '\x7b') (rest : Text) :
    (lexer c rest).1 ≠ .blockStart := by
  by_cases he : c = '\x7d'
  · subst he
    rw [hl.closing]
    exact nofun
  · refine (hl.kind_ne c rest ?_).1
    rw [isBrace, decide_eq_false hc, decide_eq_false he, Bool.or_false]

include hl in
theorem nextSignificant_of_notBlank {c : Char} (hc : isBlank c = false) (start : Nat)
    (rest : Text) : Token.nextSignificant (lexer.tokensFrom start (c :: rest)) =
      (some ⟨(lexer c rest).1, start, c :: rest.take (lexer c rest).2⟩,
        lexer.tokensFrom (start + 1 + (rest.take (lexer c rest).2).length)
          (rest.drop (lexer c rest).2)) := by
  have hk : (lexer c rest).1 ≠ .blank := fun h =>
    Bool.false_ne_true (hc.symm.trans ((hl.kind_eq_blank c rest).1 h))
  rw [tokensFrom_cons, Token.nextSignificant, if_neg hk]

include hl in
/-- Reading over blanks reads over the blanks at the start of the text. -/
theorem nextSignificant_tokensFrom (start : Nat) (t : Text) :
    Token.nextSignificant (lexer.tokensFrom start t) =
      Token.nextSignificant
        (lexer.tokensFrom (start + (t.takeWhile isBlank).length) (t.dropWhile isBlank)) := by
  cases t with
  | nil => rfl
  | cons c rest =>
    cases hc : isBlank c with
    | false =>
      rw [List.takeWhile_cons_of_neg (Bool.eq_false_iff.1 hc),
        List.dropWhile_cons_of_neg (Bool.eq_false_iff.1 hc)]
      rfl
    | true =>
      obtain ⟨p, -, hn, hp⟩ := hl.run c rest
      obtain rfl := hp hc
      rw [List.takeWhile_cons_of_pos hc, List.dropWhile_cons_of_pos hc, tokensFrom_cons,
        Token.nextSignificant, if_pos ((hl.kind_eq_blank c rest).2 hc), hn,
        take_length_takeWhile, drop_length_takeWhile, List.length_cons, Nat.add_assoc,
        Nat.add_comm 1]

include hl in
/-- Behind blanks and an opening brace, a block ends where the text splits, or not at all. -/
theorem readBlock_of_brace (keyword : Token) (start : Nat) {t rest : Text}
    (ht : t.dropWhile isBlank = '\x7b' :: rest) :
    keyword.readBlock (lexer.tokensFrom start t) =
      match Text.closing 0 rest with
      | some (i, a) =>
        .ok ⟨start + (t.takeWhile isBlank).length + 1,
            start + (t.takeWhile isBlank).length + 1 + i.length⟩
          (lexer.tokensFrom (start + (t.takeWhile isBlank).length + 1 + i.length + 1) a)
      | none => .error ⟨.unterminated keyword.text, start + (t.takeWhile isBlank).length⟩ [] := by
  unfold Token.readBlock Token.expectBlock
  rw [hl.nextSignificant_tokensFrom, ht, hl.nextSignificant_of_notBlank rfl, hl.opening]
  simp only [if_true, List.take_zero, List.drop_zero]
  rw [hl.closingBrace_tokensFrom]
  cases Text.closing 0 rest with
  | none => rfl
  | some split => rfl

include hl in
/-- A block that is read off a text is read off the tokens of the text. Here and below the
text is what is left of a buffer, and so is what stands behind the block. -/
theorem readBlock_tokensFrom {keyword : Token} {offset : Nat} {buffer t i a : Text}
    (ht : t <:+ buffer) (h : Text.readBlock lexer keyword.text offset t = .ok (i, a)) :
    ∃ b, keyword.readBlock (lexer.tokensFrom (buffer.length - t.length) t) =
        .ok b (lexer.tokensFrom (buffer.length - a.length) a) ∧
      b.interior buffer = i ∧ b.past = buffer.length - a.length := by
  obtain ⟨u, rfl⟩ := ht
  have hplace : (u ++ t).length - t.length = u.length := by
    rw [List.length_append, Nat.add_sub_cancel]
  obtain ⟨rest, hd, hs⟩ := Text.closing_of_readBlock h
  obtain ⟨hr, -⟩ := Text.eq_of_closing hs
  have ht : t = t.takeWhile isBlank ++ '\x7b' :: rest := by
    rw [← hd]
    exact List.takeWhile_append_dropWhile.symm
  have hread := hl.readBlock_of_brace keyword u.length hd
  -- the blanks matter by their number alone from here on
  generalize t.takeWhile isBlank = gap at ht hread
  have hafter : (u ++ t).length - a.length = u.length + gap.length + 1 + i.length + 1 := by
    rw [ht, hr]
    simp only [List.length_append, List.length_cons]
    omega
  rw [hplace, hafter, hread, hs]
  refine ⟨_, rfl, ?_, rfl⟩
  have hbuffer : u ++ t = u ++ gap ++ ['\x7b'] ++ i ++ '\x7d' :: a := by
    rw [ht, hr]
    simp only [List.append_assoc, List.cons_append, List.nil_append]
  have hstart : u.length + gap.length + 1 = (u ++ gap ++ ['\x7b']).length := by
    simp only [List.length_append, List.length_singleton]
  rw [Block.interior, hbuffer]
  simp only [hstart]
  exact Text.slice_append _ _ _

include hl in
/-- A block that cannot be read off a text cannot be read off its tokens, for the same
reason. -/
theorem readBlock_tokensFrom_error {keyword : Token} {offset : Nat} {t : Text} {f : BlockFault}
    (h : Text.readBlock lexer keyword.text offset t = .error f) :
    ∃ rest, keyword.readBlock (lexer.tokensFrom (keyword.start + offset) t) =
      .error ⟨f.problem, keyword.start + f.offset⟩ rest := by
  unfold Text.readBlock at h
  split at h
  · rename_i hd
    cases h
    refine ⟨[], ?_⟩
    unfold Token.readBlock Token.expectBlock
    rw [hl.nextSignificant_tokensFrom, hd]
    rfl
  rename_i c rest hd
  have hc : isBlank c = false := by
    have := List.head_dropWhile_not isBlank (l := t) (by rw [hd]; exact List.cons_ne_nil c rest)
    simpa only [hd, List.head_cons] using this
  simp only at h
  split at h
  · rename_i hbrace
    subst hbrace
    split at h
    · cases h
    · rename_i hs
      cases h
      rw [hl.readBlock_of_brace keyword _ hd, hs]
      simp only [Nat.add_assoc]
      exact ⟨[], rfl⟩
  · rename_i hbrace
    cases h
    -- the fault names the token that begins with this character
    refine ⟨lexer.tokensFrom (keyword.start + offset + (t.takeWhile isBlank).length + 1 +
      (rest.take (lexer c rest).2).length) (rest.drop (lexer c rest).2), ?_⟩
    unfold Token.readBlock Token.expectBlock
    rw [hl.nextSignificant_tokensFrom, hd, hl.nextSignificant_of_notBlank hc]
    simp only [if_neg (hl.kind_ne_blockStart hbrace rest)]
    rw [tokens, ← tokensFrom, tokensFrom_cons, Nat.add_assoc]
    rfl

include hl in
/-- Blocks that are read off a text are read off its tokens, and the last of them ends where
the rest of the text begins. -/
theorem readBlocks_tokensFrom (keyword : Token) {n offset : Nat} {buffer t a : Text}
    {is : List Text} (ht : t <:+ buffer)
    (h : Text.readBlocks lexer keyword.text n offset t = .ok (is, a)) :
    ∃ bs, keyword.readBlocks n (lexer.tokensFrom (buffer.length - t.length) t) =
        .ok bs (lexer.tokensFrom (buffer.length - a.length) a) ∧
      bs.map (·.interior buffer) = is ∧
      (0 < n → bs.getLast?.map (·.past) = some (buffer.length - a.length)) := by
  induction n generalizing offset t is with
  | zero =>
    cases h
    exact ⟨[], rfl, rfl, nofun⟩
  | succ n ih =>
    rw [Text.readBlocks] at h
    split at h
    · cases h
    rename_i first behind hfirst
    split at h
    · cases h
    rename_i others after hothers
    cases h
    obtain ⟨b, hb, hi, hpast⟩ := hl.readBlock_tokensFrom ht hfirst
    have hbehind : behind <:+ buffer :=
      (Text.suffix_of_readBlock hfirst).trans ht
    obtain ⟨bs, hbs, his, hlast⟩ := ih hbehind hothers
    refine ⟨b :: bs, ?_, ?_, fun _ => ?_⟩
    · rw [Token.readBlocks, bind_of_ok hb, bind_of_ok hbs]
      rfl
    · rw [List.map_cons, hi, his]
    · cases n with
      | zero =>
        cases hothers
        cases hbs
        rw [← hpast]
        rfl
      | succ n =>
        cases bs with
        | nil => cases hlast (Nat.succ_pos n)
        | cons b' bs => exact hlast (Nat.succ_pos n)

include hl in
/-- The first block that cannot be read off a text cannot be read off its tokens. -/
theorem readBlocks_tokensFrom_error (keyword : Token) {n offset : Nat} {buffer t : Text}
    {f : BlockFault} (ht : t <:+ buffer)
    (hstart : buffer.length - t.length = keyword.start + offset)
    (h : Text.readBlocks lexer keyword.text n offset t = .error f) :
    ∃ rest, keyword.readBlocks n (lexer.tokensFrom (buffer.length - t.length) t) =
      .error ⟨f.problem, keyword.start + f.offset⟩ rest := by
  induction n generalizing offset t with
  | zero => cases h
  | succ n ih =>
    rw [Text.readBlocks] at h
    split at h
    · rename_i fault hfirst
      cases h
      obtain ⟨rest, hrest⟩ := hl.readBlock_tokensFrom_error hfirst
      refine ⟨rest, ?_⟩
      rw [Token.readBlocks, hstart, bind_of_error hrest]
    · rename_i first behind hfirst
      split at h
      · rename_i fault hothers
        cases h
        obtain ⟨b, hb, -, -⟩ := hl.readBlock_tokensFrom ht hfirst
        have hsuffix := Text.suffix_of_readBlock hfirst
        obtain ⟨rest, hrest⟩ := ih (hsuffix.trans ht) (by
          have := hsuffix.length_le
          have := ht.length_le
          omega) hothers
        refine ⟨rest, ?_⟩
        rw [Token.readBlocks, bind_of_ok hb, bind_of_error hrest]
      · cases h

end Lexer.Structural

end Bracemark
