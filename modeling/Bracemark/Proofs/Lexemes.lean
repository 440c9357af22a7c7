import Bracemark.Proofs.Cuts
import Bracemark.Token.Lexer

/-!
# Lexemes

What the scanners of markup have in common (`Lexer.Structural`): a brace is a lexeme of its
own, no other lexeme holds one, and a scanner never looks past a brace. So the lexemes of a
text are those of the parts between its braces (`lexemes_append`), and they spell the text
(`flatMap_lexemes`). Both the scanner of directives and the scanner of tags are of this form
(`structural_directive`, `structural_document`).
-/

namespace Bracemark

/-- An opening or a closing brace. -/
def isBrace (c : Char) : Bool := c = '\x7b' || c = '\x7d'

theorem eq_of_isBrace {c : Char} (h : isBrace c = true) : c = '\x7b' ∨ c = '\x7d' := by
  simpa only [isBrace, Bool.or_eq_true, decide_eq_true_eq] using h

/-! ## Keywords and parts of a text -/

namespace Text

theorem slice_append (u i v : Text) : slice (u ++ i ++ v) u.length (u.length + i.length) = i := by
  rw [slice, ← List.length_append, List.take_left, List.drop_left]

end Text

namespace Directive

theorem eq_of_ofName? {w : Text} {d : Directive} (h : ofName? w = some d) :
    w = d.name.toList := by
  have := List.find?_some h
  exact (of_decide_eq_true this).symm

theorem ofName?_name (d : Directive) : ofName? d.name.toList = some d := by
  cases d <;> rfl

/-- A name is a word. -/
theorem takeWhile_name (d : Directive) : d.name.toList.takeWhile isWord = d.name.toList := by
  cases d <;> rfl

theorem isWord_of_mem_name (d : Directive) {c : Char} (hc : c ∈ d.name.toList) :
    isWord c = true := by
  rw [← d.takeWhile_name] at hc
  exact eq_true_of_mem_takeWhile hc

theorem notMem_name (d : Directive) {c : Char} (hc : isWord c = false) : c ∉ d.name.toList := by
  intro hm
  rw [d.isWord_of_mem_name hm] at hc
  cases hc

theorem notMem_keyword (d : Directive) {c : Char} (hc : isWord c = false) (hstop : c ≠ '.') :
    c ∉ '.' :: d.name.toList :=
  List.not_mem_cons_of_ne_of_not_mem hstop (d.notMem_name hc)

end Directive

namespace Kind

/-- The word of a kind is a word. -/
theorem takeWhile_word (k : Kind) : k.word.toList.takeWhile isWord = k.word.toList := by
  cases k <;> rfl

theorem isWord_of_mem_word {k : Kind} {c : Char} (hc : c ∈ k.word.toList) : isWord c = true := by
  rw [← k.takeWhile_word] at hc
  exact eq_true_of_mem_takeWhile hc

end Kind

namespace Lexer

/-! ## Structural scanners -/

/-- What the scanners of markup have in common. -/
structure Structural (lexer : Lexer) : Prop where
  opening : ∀ rest, lexer '\x7b' rest = (.blockStart, 0)
  closing : ∀ rest, lexer '\x7d' rest = (.blockEnd, 0)
  kind_ne : ∀ c rest, isBrace c = false →
    (lexer c rest).1 ≠ .blockStart ∧ (lexer c rest).1 ≠ .blockEnd
  kind_eq_blank : ∀ c rest, (lexer c rest).1 = .blank ↔ isBlank c = true
  run : ∀ c rest, ∃ p : Char → Bool, (∀ x, isBrace x = true → p x = false) ∧
    (lexer c rest).2 = (rest.takeWhile p).length ∧
    (isBlank c = true → p = isBlank)
  stops : ∀ c rest b post, isBrace b = true → lexer c (rest ++ b :: post) = lexer c rest

theorem isBlank_of_isBrace {x : Char} (h : isBrace x = true) : isBlank x = false := by
  rcases eq_of_isBrace h with rfl | rfl <;> rfl

theorem isWord_of_isBrace {x : Char} (h : isBrace x = true) : isWord x = false := by
  rcases eq_of_isBrace h with rfl | rfl <;> rfl

theorem isPlain_of_isBrace {x : Char} (h : isBrace x = true) : isPlain x = false := by
  rcases eq_of_isBrace h with rfl | rfl <;> rfl

theorem isMark_of_isBrace {x : Char} (h : isBrace x = true) : isMark x = false := by
  rcases eq_of_isBrace h with rfl | rfl <;> rfl

/-- The scanner of directives by the class of the first character. -/
theorem directive_cases (c : Char) (rest : Text) :
    (isBlank c = true ∧ directive c rest = (.blank, (rest.takeWhile isBlank).length)) ∨
    (c = '\x7b' ∧ directive c rest = (.blockStart, 0)) ∨
    (c = '\x7d' ∧ directive c rest = (.blockEnd, 0)) ∨
    (∃ d, c = '.' ∧ rest.takeWhile isWord = d.name.toList ∧
      directive c rest = (.directive d, (rest.takeWhile isWord).length)) ∨
    (c = '.' ∧ Directive.ofName? (rest.takeWhile isWord) = none ∧
      directive c rest = (.other, 0)) ∨
    (isBlank c = false ∧ isBrace c = false ∧ c ≠ '.' ∧
      directive c rest = (.other, (rest.takeWhile isPlain).length)) := by
  unfold directive
  split
  · exact .inl ⟨‹_›, rfl⟩
  split
  · exact .inr (.inl ⟨‹_›, rfl⟩)
  split
  · exact .inr (.inr (.inl ⟨‹_›, rfl⟩))
  split
  · split
    · rename_i d hd
      have hname := Directive.eq_of_ofName? hd
      refine .inr (.inr (.inr (.inl ⟨d, ‹_›, hname, ?_⟩)))
      rw [hname, String.length_toList]
    · exact .inr (.inr (.inr (.inr (.inl ⟨‹_›, ‹_›, rfl⟩))))
  · rename_i hb ho hc hs
    refine .inr (.inr (.inr (.inr (.inr ⟨Bool.eq_false_iff.2 hb, ?_, hs, rfl⟩))))
    simp only [isBrace, ho, hc, decide_false, Bool.or_false]

theorem structural_directive : Structural directive where
  opening _ := rfl
  closing _ := rfl
  kind_ne c rest hc := by
    rcases directive_cases c rest with ⟨-, h⟩ | ⟨rfl, h⟩ | ⟨rfl, h⟩ | ⟨d, -, -, h⟩ | ⟨-, -, h⟩ |
      ⟨-, -, -, h⟩
    · rw [h]; exact ⟨nofun, nofun⟩
    · cases hc
    · cases hc
    · rw [h]; exact ⟨nofun, nofun⟩
    · rw [h]; exact ⟨nofun, nofun⟩
    · rw [h]; exact ⟨nofun, nofun⟩
  kind_eq_blank c rest := by
    rcases directive_cases c rest with ⟨hb, h⟩ | ⟨rfl, h⟩ | ⟨rfl, h⟩ | ⟨d, rfl, -, h⟩ |
      ⟨rfl, -, h⟩ | ⟨hb, -, -, h⟩
    · rw [h]; exact iff_of_true rfl hb
    · rw [h]; decide
    · rw [h]; decide
    · rw [h]; exact iff_of_false nofun (by decide)
    · rw [h]; decide
    · rw [h]; exact iff_of_false nofun (Bool.eq_false_iff.1 hb)
  run c rest := by
    rcases directive_cases c rest with ⟨-, h⟩ | ⟨rfl, h⟩ | ⟨rfl, h⟩ | ⟨d, rfl, -, h⟩ |
      ⟨rfl, -, h⟩ | ⟨hb, -, -, h⟩
    · exact ⟨isBlank, fun _ => isBlank_of_isBrace, by rw [h], fun _ => rfl⟩
    · exact ⟨fun _ => false, fun _ _ => rfl, by rw [h, length_takeWhile_false], nofun⟩
    · exact ⟨fun _ => false, fun _ _ => rfl, by rw [h, length_takeWhile_false], nofun⟩
    · exact ⟨isWord, fun _ => isWord_of_isBrace, by rw [h], nofun⟩
    · exact ⟨fun _ => false, fun _ _ => rfl, by rw [h, length_takeWhile_false], nofun⟩
    · exact ⟨isPlain, fun _ => isPlain_of_isBrace, by rw [h], fun he => by rw [hb] at he; cases he⟩
  stops c rest b post hb := by
    simp only [directive, takeWhile_append_cons (isBlank_of_isBrace hb),
      takeWhile_append_cons (isWord_of_isBrace hb), takeWhile_append_cons (isPlain_of_isBrace hb)]

/-- The scanner of tags by the class of the first character. -/
theorem document_cases (c : Char) (rest : Text) :
    (isBlank c = true ∧ document c rest = (.blank, (rest.takeWhile isBlank).length)) ∨
    (c = '\x7b' ∧ document c rest = (.blockStart, 0)) ∨
    (c = '\x7d' ∧ document c rest = (.blockEnd, 0)) ∨
    (∃ k, isBlank c = false ∧ isBrace c = false ∧ c :: rest.takeWhile isWord = k.word.toList ∧
      document c rest = (.tag k, (rest.takeWhile isWord).length)) ∨
    (∃ p, isBlank c = false ∧ isBrace c = false ∧ (p = isWord ∨ p = isMark) ∧
      document c rest = (.other, (rest.takeWhile p).length)) := by
  unfold document
  split
  · exact .inl ⟨‹_›, rfl⟩
  split
  · exact .inr (.inl ⟨‹_›, rfl⟩)
  split
  · exact .inr (.inr (.inl ⟨‹_›, rfl⟩))
  rename_i hb ho hc
  have hbrace : isBrace c = false := by
    simp only [isBrace, ho, hc, decide_false, Bool.or_false]
  split
  · simp only
    split
    · rename_i k hk
      have hw := List.find?_some hk
      exact .inr (.inr (.inr (.inl ⟨k, Bool.eq_false_iff.2 hb, hbrace,
        (of_decide_eq_true hw).symm, rfl⟩)))
    · exact .inr (.inr (.inr (.inr ⟨isWord, Bool.eq_false_iff.2 hb, hbrace, .inl rfl, rfl⟩)))
  · exact .inr (.inr (.inr (.inr ⟨isMark, Bool.eq_false_iff.2 hb, hbrace, .inr rfl, rfl⟩)))

theorem structural_document : Structural document where
  opening _ := rfl
  closing _ := rfl
  kind_ne c rest hc := by
    rcases document_cases c rest with ⟨-, h⟩ | ⟨rfl, h⟩ | ⟨rfl, h⟩ | ⟨k, -, -, -, h⟩ |
      ⟨p, -, -, -, h⟩
    · rw [h]; exact ⟨nofun, nofun⟩
    · cases hc
    · cases hc
    · rw [h]; exact ⟨nofun, nofun⟩
    · rw [h]; exact ⟨nofun, nofun⟩
  kind_eq_blank c rest := by
    rcases document_cases c rest with ⟨hb, h⟩ | ⟨rfl, h⟩ | ⟨rfl, h⟩ | ⟨k, hb, -, -, h⟩ |
      ⟨p, hb, -, -, h⟩
    · rw [h]; exact iff_of_true rfl hb
    · rw [h]; decide
    · rw [h]; decide
    · rw [h]; exact iff_of_false nofun (Bool.eq_false_iff.1 hb)
    · rw [h]; exact iff_of_false nofun (Bool.eq_false_iff.1 hb)
  run c rest := by
    rcases document_cases c rest with ⟨-, h⟩ | ⟨rfl, h⟩ | ⟨rfl, h⟩ | ⟨k, hb, -, -, h⟩ |
      ⟨p, hb, -, rfl | rfl, h⟩
    · exact ⟨isBlank, fun _ => isBlank_of_isBrace, by rw [h], fun _ => rfl⟩
    · exact ⟨fun _ => false, fun _ _ => rfl, by rw [h, length_takeWhile_false], nofun⟩
    · exact ⟨fun _ => false, fun _ _ => rfl, by rw [h, length_takeWhile_false], nofun⟩
    · exact ⟨isWord, fun _ => isWord_of_isBrace, by rw [h], fun he => by rw [hb] at he; cases he⟩
    · exact ⟨isWord, fun _ => isWord_of_isBrace, by rw [h], fun he => by rw [hb] at he; cases he⟩
    · exact ⟨isMark, fun _ => isMark_of_isBrace, by rw [h], fun he => by rw [hb] at he; cases he⟩
  stops c rest b post hb := by
    simp only [document, takeWhile_append_cons (isBlank_of_isBrace hb),
      takeWhile_append_cons (isWord_of_isBrace hb), takeWhile_append_cons (isMark_of_isBrace hb)]

theorem structural_of_markup {lexer : Lexer} (h : lexer = directive ∨ lexer = document) :
    lexer.Structural := by
  rcases h with rfl | rfl
  · exact structural_directive
  · exact structural_document

/-! ## The lexemes of a text -/

theorem lexemes_cons (lexer : Lexer) (c : Char) (rest : Text) :
    lexer.lexemes (c :: rest) = ((lexer c rest).1, c :: rest.take (lexer c rest).2) ::
      lexer.lexemes (rest.drop (lexer c rest).2) :=
  segment_zero_cons ..

/-- The lexemes of a text spell the text. -/
theorem flatMap_lexemes (lexer : Lexer) (t : Text) : (lexer.lexemes t).flatMap (·.2) = t :=
  flatMap_segment (fun _ _ => rfl) t

namespace Structural

variable {lexer : Lexer} (hl : lexer.Structural)

include hl in
theorem length_le (c : Char) (rest : Text) : (lexer c rest).2 ≤ rest.length := by
  obtain ⟨p, -, hn, -⟩ := hl.run c rest
  rw [hn]
  exact (List.takeWhile_prefix p).length_le

include hl in
/-- Only a brace is a lexeme with a brace in it. -/
theorem isBrace_of_mem_take {c : Char} {rest : Text} {x : Char}
    (hx : x ∈ rest.take (lexer c rest).2) : isBrace x = false := by
  obtain ⟨p, hp, hn, -⟩ := hl.run c rest
  rw [hn, take_length_takeWhile] at hx
  cases hb : isBrace x with
  | false => rfl
  | true => exact (eq_true_of_mem_takeWhile hx).symm.trans (hp x hb)

include hl in
theorem lexemes_opening (post : Text) :
    lexer.lexemes ('\x7b' :: post) = (.blockStart, ['\x7b']) :: lexer.lexemes post := by
  rw [lexemes_cons, hl.opening]
  rfl

include hl in
theorem lexemes_closing (post : Text) :
    lexer.lexemes ('\x7d' :: post) = (.blockEnd, ['\x7d']) :: lexer.lexemes post := by
  rw [lexemes_cons, hl.closing]
  rfl

include hl in
/-- The lexemes in front of a brace do not depend on what is behind it. -/
theorem lexemes_append {b : Char} (hb : isBrace b = true) (u post : Text) :
    lexer.lexemes (u ++ b :: post) = lexer.lexemes u ++ lexer.lexemes (b :: post) := by
  induction u using segment_induction lexer with
  | nil => rfl
  | cons c rest ih =>
    have hle := hl.length_le c rest
    rw [List.cons_append, lexemes_cons, lexemes_cons, hl.stops c rest b post hb,
      List.take_append_of_le_length hle, List.drop_append_of_le_length hle, ih, List.cons_append]

include hl in
/-- A text without braces has no lexeme that is one. -/
theorem kind_ne_of_mem_lexemes {t : Text} (ht : ∀ x ∈ t, isBrace x = false)
    {e : TokenKind × Text} (he : e ∈ lexer.lexemes t) :
    e.1 ≠ .blockStart ∧ e.1 ≠ .blockEnd := by
  induction t using segment_induction lexer with
  | nil => cases he
  | cons c rest ih =>
    rw [lexemes_cons] at he
    rcases List.mem_cons.1 he with rfl | he
    · exact hl.kind_ne c rest (ht c List.mem_cons_self)
    · exact ih (fun x hx => ht x (List.mem_cons_of_mem c (List.mem_of_mem_drop hx))) he

end Structural

/-! ## Tokens -/

/-- The tokens of a text that begins at an offset. -/
def tokensFrom (lexer : Lexer) (start : Nat) (t : Text) : List Token :=
  Token.placeFrom start (lexer.lexemes t)

theorem placeFrom_append (start : Nat) (es more : List (TokenKind × Text)) :
    Token.placeFrom start (es ++ more) = Token.placeFrom start es ++
      Token.placeFrom (start + (es.flatMap (·.2)).length) more := by
  induction es generalizing start with
  | nil => rfl
  | cons e es ih =>
    rw [List.cons_append, Token.placeFrom, Token.placeFrom, ih, List.flatMap_cons,
      List.length_append, Nat.add_assoc, List.cons_append]

theorem flatMap_placeFrom (start : Nat) (es : List (TokenKind × Text)) :
    (Token.placeFrom start es).flatMap (·.text) = es.flatMap (·.2) := by
  induction es generalizing start with
  | nil => rfl
  | cons e es ih => rw [Token.placeFrom, List.flatMap_cons, List.flatMap_cons, ih]

/-- The tokens of a text spell the text. -/
theorem flatMap_tokensFrom (lexer : Lexer) (start : Nat) (t : Text) :
    (lexer.tokensFrom start t).flatMap (·.text) = t := by
  rw [tokensFrom, flatMap_placeFrom, flatMap_lexemes]

/-- What holds of the kind of every lexeme holds of the kind of every token. -/
theorem kind_of_mem_tokensFrom {lexer : Lexer} {start : Nat} {t : Text} {p : TokenKind → Prop}
    (h : ∀ e ∈ lexer.lexemes t, p e.1) {token : Token} (ht : token ∈ lexer.tokensFrom start t) :
    p token.kind := by
  unfold tokensFrom at ht
  generalize lexer.lexemes t = es at h ht
  induction es generalizing start with
  | nil => cases ht
  | cons e es ih =>
    rw [Token.placeFrom] at ht
    rcases List.mem_cons.1 ht with rfl | ht
    · exact h e List.mem_cons_self
    · exact ih (fun e he => h e (List.mem_cons_of_mem _ he)) ht

theorem tokensFrom_cons (lexer : Lexer) (start : Nat) (c : Char) (rest : Text) :
    lexer.tokensFrom start (c :: rest) =
      ⟨(lexer c rest).1, start, c :: rest.take (lexer c rest).2⟩ ::
        lexer.tokensFrom (start + 1 + (rest.take (lexer c rest).2).length)
          (rest.drop (lexer c rest).2) := by
  rw [tokensFrom, lexemes_cons, Token.placeFrom, List.length_cons, Nat.add_assoc, Nat.add_comm 1]
  rfl

/-- The tokens behind some of a text are those of the text behind them. -/
theorem tokensFrom_eq_append {lexer : Lexer} {t : Text} {start : Nat} {before ts : List Token}
    (h : lexer.tokensFrom start t = before ++ ts) :
    ∃ y, t = before.flatMap (·.text) ++ y ∧
      ts = lexer.tokensFrom (start + (before.flatMap (·.text)).length) y := by
  induction before generalizing start t with
  | nil => exact ⟨t, rfl, h.symm⟩
  | cons token before ih =>
    cases t with
    | nil => cases h
    | cons c rest =>
      rw [tokensFrom_cons] at h
      obtain ⟨rfl, hmore⟩ := List.cons.inj h
      obtain ⟨y, hy, rfl⟩ := ih hmore
      refine ⟨y, ?_, ?_⟩
      · rw [List.flatMap_cons, List.append_assoc, ← hy, List.cons_append, List.take_append_drop]
      · rw [List.flatMap_cons, List.length_append, List.length_cons]
        congr 1
        omega

theorem eq_of_tokensFrom {lexer : Lexer} {t : Text} {start : Nat} {token : Token}
    {ts : List Token} (h : lexer.tokensFrom start t = token :: ts) :
    ∃ c rest, t = c :: rest ∧
      token = ⟨(lexer c rest).1, start, c :: rest.take (lexer c rest).2⟩ := by
  cases t with
  | nil => cases h
  | cons c rest =>
    rw [tokensFrom_cons] at h
    exact ⟨c, rest, rfl, (List.cons.inj h).1.symm⟩

namespace Structural

variable {lexer : Lexer} (hl : lexer.Structural)

include hl in
theorem tokensFrom_opening (start : Nat) (post : Text) :
    lexer.tokensFrom start ('\x7b' :: post) =
      ⟨.blockStart, start, ['\x7b']⟩ :: lexer.tokensFrom (start + 1) post := by
  rw [tokensFrom, hl.lexemes_opening]
  rfl

include hl in
theorem tokensFrom_closing (start : Nat) (post : Text) :
    lexer.tokensFrom start ('\x7d' :: post) =
      ⟨.blockEnd, start, ['\x7d']⟩ :: lexer.tokensFrom (start + 1) post := by
  rw [tokensFrom, hl.lexemes_closing]
  rfl

include hl in
/-- The tokens in front of a brace do not depend on what is behind it. -/
theorem tokensFrom_append {b : Char} (hb : isBrace b = true) (start : Nat) (u post : Text) :
    lexer.tokensFrom start (u ++ b :: post) =
      lexer.tokensFrom start u ++ lexer.tokensFrom (start + u.length) (b :: post) := by
  rw [tokensFrom, hl.lexemes_append hb, placeFrom_append, flatMap_lexemes]
  rfl

end Structural

end Lexer

end Bracemark
