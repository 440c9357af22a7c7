import Bracemark.Proofs.Keywords
import Bracemark.Proofs.Vocabulary

/-!
# What the scanners find

The tokens of a text spell it without a gap (`Lexer.lossless`). In markup the braces are tokens of
their own (`Lexer.Marks.mem_tokens_iff`), a keyword is one exactly where it is written out
(`Lexer.keyword_iff`), and a tag is a run of word characters that goes on at neither end
(`Lexer.mem_document_tokens_iff`), because no token of the scanner of tags begins within a word
(`Lexer.document_uniform`). Where one of two parts meets the other with a brace, the tokens are
those of the parts (`Lexer.Structural.tokensFrom_append_of_getLast?`, `tokensFrom_append_of_head?`).
-/

namespace Bracemark

namespace Token

/-- The token so many characters further on. -/
def shift (n : Nat) (t : Token) : Token := { t with start := n + t.start }

/-- The first token begins at an offset, and every other one where the one before it stops. -/
def Contiguous : Nat → List Token → Prop
  | _, [] => True
  | start, t :: ts => t.start = start ∧ Contiguous t.stop ts

theorem directive?_eq_some_iff {t : Token} {d : Directive} :
    t.directive? = some d ↔ t.kind = .directive d := by
  obtain ⟨kind, start, text⟩ := t
  cases kind <;> simp [directive?]

end Token

namespace Text

/-- A text begins with a keyword if it goes on with no word behind it. -/
theorem directive?_eq_some_iff {t : Text} {d : Directive} :
    directive? t = some d ↔ ∃ v, t = d.keyword.toList ++ v ∧ v.Apart := by
  have hkeyword : d.keyword.toList = '.' :: d.name.toList := by
    rw [Directive.keyword, String.toList_append]
    rfl
  rw [hkeyword]
  constructor
  · intro h
    obtain ⟨v, rfl⟩ := eq_append_of_directive? h
    exact ⟨v, rfl, apart_of_directive? h⟩
  · rintro ⟨v, rfl, hv⟩
    exact hv.directive?_keyword d

/-- What is left behind a run of word characters goes on with no word. -/
theorem apart_dropWhile (t : Text) : Apart (t.dropWhile isWord) := by
  intro c hc
  have := List.head?_dropWhile_not isWord t
  rw [hc] at this
  exact this

/-- A text behind which no word goes on. -/
def EndsApart (t : Text) : Prop := ∀ c ∈ t.getLast?, isWord c = false

theorem endsApart_append_cons {u v : Text} {b : Char} :
    EndsApart (u ++ b :: v) ↔ EndsApart (b :: v) := by
  unfold EndsApart
  rw [List.getLast?_append, List.getLast?_cons, Option.some_or]

theorem EndsApart.drop {u : Text} {c : Char} (h : EndsApart (c :: u)) (n : Nat) :
    EndsApart (u.drop n) := by
  intro x hx
  rw [List.getLast?_drop] at hx
  split at hx
  · cases hx
  · exact h x (by rw [List.getLast?_cons, hx]; rfl)

theorem endsApart_of_forall {t : Text} (h : ∀ x ∈ t, isWord x = false) : EndsApart t :=
  fun x hx => h x (List.mem_of_getLast? hx)

/-- A text of word characters ends with one. -/
theorem not_endsApart_of_forall {u : Text} {c : Char} (h : ∀ x ∈ c :: u, isWord x = true) :
    ¬EndsApart (c :: u) := by
  intro hends
  obtain ⟨x, hx⟩ : ∃ x, (c :: u).getLast? = some x := ⟨_, List.getLast?_cons⟩
  have := hends x hx
  rw [h x (List.mem_of_getLast? hx)] at this
  cases this

end Text

namespace Lexer

/-! ## Nothing is lost -/

/-- The tokens of a text follow each other without a gap, none is empty, and they spell the text. -/
structure Lossless (t : Text) (ts : List Token) : Prop where
  nonempty : ∀ x ∈ ts, x.text ≠ []
  contiguous : Token.Contiguous 0 ts
  spells : ts.flatMap (·.text) = t

variable {lexer : Lexer} {t u v : Text} {start : Nat} {token : Token}

theorem contiguous_tokensFrom (lexer : Lexer) (start : Nat) (t : Text) :
    Token.Contiguous start (lexer.tokensFrom start t) := by
  induction t using segment_induction lexer generalizing start with
  | nil => trivial
  | cons c rest ih =>
    rw [tokensFrom_cons]
    refine ⟨rfl, ?_⟩
    have hstop : start + (c :: rest.take (lexer c rest).2).length =
        start + 1 + (rest.take (lexer c rest).2).length := by
      rw [List.length_cons]
      omega
    rw [Token.stop, hstop]
    exact ih _

/-- A token stands where it says, and is what the scanner takes there. -/
theorem exists_of_mem_tokensFrom (h : token ∈ lexer.tokensFrom start t) :
    ∃ u c rest, t = u ++ c :: rest ∧
      token = ⟨(lexer c rest).1, start + u.length, c :: rest.take (lexer c rest).2⟩ := by
  obtain ⟨before, after, hsplit⟩ := List.append_of_mem h
  obtain ⟨y, ht, hy⟩ := tokensFrom_eq_append hsplit
  obtain ⟨c, rest, rfl, htoken⟩ := eq_of_tokensFrom hy.symm
  exact ⟨_, c, rest, ht, htoken⟩

theorem lossless (lexer : Lexer) (t : Text) : Lossless t (lexer.tokens t) where
  nonempty x hx := by
    have hmem : x ∈ lexer.tokensFrom 0 t := hx
    obtain ⟨u, c, rest, -, rfl⟩ := exists_of_mem_tokensFrom hmem
    exact List.cons_ne_nil _ _
  contiguous := contiguous_tokensFrom lexer 0 t
  spells := flatMap_tokensFrom lexer 0 t

theorem tokensFrom_eq_map (lexer : Lexer) (start : Nat) (t : Text) :
    lexer.tokensFrom start t = (lexer.tokens t).map (.shift start) := by
  have (n : Nat) : lexer.tokensFrom (start + n) t = (lexer.tokensFrom n t).map (.shift start) := by
    induction t using segment_induction lexer generalizing n with
    | nil => rfl
    | cons c rest ih =>
      rw [tokensFrom_cons, tokensFrom_cons, List.map_cons, ← ih, Nat.add_assoc start,
        Nat.add_assoc start]
      rfl
  exact this 0

/-! ## Braces -/

/-- A brace with the kind of its tokens. -/
structure Marks (lexer : Lexer) (b : Char) (kind : TokenKind) : Prop where
  brace : isBrace b = true
  token : ∀ rest, lexer b rest = (kind, 0)
  only : ∀ c rest, (lexer c rest).1 = kind → c = b

theorem Structural.marks_opening (hl : lexer.Structural) : lexer.Marks '\x7b' .blockStart where
  brace := rfl
  token := hl.opening
  only c rest h := by
    cases hc : isBrace c with
    | false => exact absurd h (hl.kind_ne c rest hc).1
    | true =>
      rcases eq_of_isBrace hc with rfl | rfl
      · rfl
      · rw [hl.closing] at h
        cases h

theorem Structural.marks_closing (hl : lexer.Structural) : lexer.Marks '\x7d' .blockEnd where
  brace := rfl
  token := hl.closing
  only c rest h := by
    cases hc : isBrace c with
    | false => exact absurd h (hl.kind_ne c rest hc).2
    | true =>
      rcases eq_of_isBrace hc with rfl | rfl
      · rw [hl.opening] at h
        cases h
      · rfl

namespace Marks

variable {b : Char} {kind : TokenKind}

theorem tokensFrom_cons (h : lexer.Marks b kind) (start : Nat) (v : Text) :
    lexer.tokensFrom start (b :: v) = ⟨kind, start, [b]⟩ :: lexer.tokensFrom (start + 1) v := by
  rw [Lexer.tokensFrom_cons, h.token]
  rfl

/-- The tokens of this kind are the characters that are this brace. -/
theorem mem_tokens_iff (h : lexer.Marks b kind) (hl : lexer.Structural) :
    token ∈ lexer.tokens t ∧ token.kind = kind ↔
      ∃ u v, t = u ++ b :: v ∧ token = ⟨kind, u.length, [b]⟩ := by
  constructor
  · rintro ⟨hmem, hkind⟩
    replace hmem : token ∈ lexer.tokensFrom 0 t := hmem
    obtain ⟨u, c, rest, rfl, rfl⟩ := exists_of_mem_tokensFrom hmem
    obtain rfl := h.only c rest hkind
    refine ⟨u, rest, rfl, ?_⟩
    rw [h.token, Nat.zero_add]
    rfl
  · rintro ⟨u, v, rfl, rfl⟩
    refine ⟨?_, rfl⟩
    have hsplit := hl.tokensFrom_append h.brace 0 u v
    rw [Nat.zero_add, h.tokensFrom_cons] at hsplit
    show _ ∈ lexer.tokensFrom 0 _
    rw [hsplit]
    exact List.mem_append_right _ List.mem_cons_self

end Marks

/-! ## Parts that meet at a brace -/

theorem Structural.marks_of_isBrace (hl : lexer.Structural) {b : Char} (hb : isBrace b = true) :
    ∃ kind, lexer.Marks b kind := by
  rcases eq_of_isBrace hb with rfl | rfl
  · exact ⟨_, hl.marks_opening⟩
  · exact ⟨_, hl.marks_closing⟩

/-- The tokens of two parts, if the first one ends with a brace, or is empty. -/
theorem Structural.tokensFrom_append_of_getLast? (hl : lexer.Structural)
    (hu : ∀ x ∈ u.getLast?, isBrace x = true) (start : Nat) (v : Text) :
    lexer.tokensFrom start (u ++ v) =
      lexer.tokensFrom start u ++ lexer.tokensFrom (start + u.length) v := by
  rcases List.eq_nil_or_concat u with rfl | ⟨w, b, rfl⟩
  · rfl
  · rw [List.concat_eq_append] at hu ⊢
    have hb : isBrace b = true := hu b List.getLast?_concat
    obtain ⟨kind, hmarks⟩ := hl.marks_of_isBrace hb
    rw [List.append_assoc, List.singleton_append, hl.tokensFrom_append hb, hl.tokensFrom_append hb,
      hmarks.tokensFrom_cons, hmarks.tokensFrom_cons, List.append_assoc, List.length_append]
    rfl

/-- The tokens of two parts, if the second one begins with a brace, or is empty. -/
theorem Structural.tokensFrom_append_of_head? (hl : lexer.Structural)
    (hv : ∀ x ∈ v.head?, isBrace x = true) (start : Nat) (u : Text) :
    lexer.tokensFrom start (u ++ v) =
      lexer.tokensFrom start u ++ lexer.tokensFrom (start + u.length) v := by
  cases v with
  | nil =>
    rw [List.append_nil]
    exact (List.append_nil _).symm
  | cons b v => exact hl.tokensFrom_append (hv b rfl) start u v

/-! ## Keywords -/

/-- A keyword is a token where the text reads so and goes on with no word. -/
theorem keyword_iff {d : Directive} :
    (∃ token ∈ directive.tokens t, token.kind = .directive d ∧ token.start = start) ↔
      ∃ u v, t = u ++ (d.keyword.toList ++ v) ∧ u.length = start ∧ v.Apart := by
  constructor
  · rintro ⟨token, hmem, hkind, rfl⟩
    obtain ⟨u, w, rfl, hw, rfl⟩ := mem_tokens_iff.1 ⟨hmem, Token.directive?_eq_some_iff.2 hkind⟩
    obtain ⟨v, rfl, hv⟩ := Text.directive?_eq_some_iff.1 hw
    exact ⟨u, v, rfl, rfl, hv⟩
  · rintro ⟨u, v, rfl, rfl, hv⟩
    obtain ⟨hmem, hkind⟩ := mem_tokens_iff.2
      ⟨u, d.keyword.toList ++ v, rfl, Text.directive?_eq_some_iff.2 ⟨v, rfl, hv⟩, rfl⟩
    exact ⟨d.token u.length, hmem, Token.directive?_eq_some_iff.1 hkind, rfl⟩

/-! ## Tags -/

/-- The characters of a lexeme are all part of a word or all not, and a word does not go on behind
it. -/
theorem document_uniform (c : Char) (rest : Text) :
    (∀ x ∈ rest.take (document c rest).2, isWord x = isWord c) ∧
      (isWord c = true → Text.Apart (rest.drop (document c rest).2)) := by
  unfold document
  split
  · rename_i hb
    have hc : isWord c = false := isWord_of_isBlank hb
    rw [take_length_takeWhile, hc]
    exact ⟨fun x hx => isWord_of_isBlank (eq_true_of_mem_takeWhile hx), nofun⟩
  split
  · rename_i ho
    rw [ho]
    exact ⟨nofun, nofun⟩
  split
  · rename_i hc
    rw [hc]
    exact ⟨nofun, nofun⟩
  split
  · rename_i hw
    have hrun : (∀ x ∈ rest.take (rest.takeWhile isWord).length, isWord x = isWord c) ∧
        (isWord c = true → Text.Apart (rest.drop (rest.takeWhile isWord).length)) := by
      rw [take_length_takeWhile, drop_length_takeWhile, hw]
      exact ⟨fun x hx => eq_true_of_mem_takeWhile hx, fun _ => Text.apart_dropWhile rest⟩
    simp only
    split <;> exact hrun
  · rename_i hw
    have hc : isWord c = false := Bool.eq_false_iff.2 hw
    rw [take_length_takeWhile, hc]
    refine ⟨fun x hx => ?_, nofun⟩
    have hmark := eq_true_of_mem_takeWhile hx
    simp only [isMark, Bool.not_eq_true', Bool.or_eq_false_iff] at hmark
    exact hmark.1.1.2

/-- Where a run of word characters is the word of a kind, a tag is taken. -/
theorem document_eq_tag {c : Char} {rest : Text} {k : Kind} (hk : k ∈ Kind.tagged)
    (hword : c :: rest.takeWhile isWord = k.word.toList) :
    document c rest = (.tag k, (rest.takeWhile isWord).length) := by
  have hc : isWord c = true := Kind.isWord_of_mem_word (hword ▸ List.mem_cons_self)
  have hb : ¬isBlank c = true := fun hb => by
    rw [isWord_of_isBlank hb] at hc
    cases hc
  have hbrace : isBrace c = false := by
    cases h : isBrace c with
    | false => rfl
    | true => exact hc.symm.trans (isWord_of_isBrace h)
  simp only [isBrace, Bool.or_eq_false_iff, decide_eq_false_iff_not] at hbrace
  unfold document
  rw [if_neg hb, if_neg hbrace.1, if_neg hbrace.2, if_pos hc]
  simp only [hword, Kind.ofWord?_word hk]

/-- A tag is the word of a kind. -/
theorem eq_of_document_tag {c : Char} {rest : Text} {k : Kind}
    (h : (document c rest).1 = .tag k) :
    isWord c = true ∧ c :: rest.take (document c rest).2 = k.word.toList := by
  rcases document_cases c rest with ⟨-, he⟩ | ⟨-, he⟩ | ⟨-, he⟩ | ⟨k', -, -, hword, he⟩ |
    ⟨p, -, -, -, he⟩ <;> rw [he] at h ⊢ <;> cases h
  rw [take_length_takeWhile]
  exact ⟨Kind.isWord_of_mem_word (hword ▸ List.mem_cons_self), hword⟩

/-- A lexeme in front of a word ends before it, if what is in front of the word ends with none. -/
theorem document_le_of_isWord {c a : Char} {u : Text} (hu : Text.EndsApart (c :: u))
    (ha : isWord a = true) (more : Text) : (document c (u ++ a :: more)).2 ≤ u.length := by
  obtain ⟨hsame, -⟩ := document_uniform c (u ++ a :: more)
  refine Nat.le_of_not_lt fun hlt => ?_
  -- otherwise it takes the word along, and is all of word characters
  have htake : u ++ [a] ⊆ (u ++ a :: more).take (document c (u ++ a :: more)).2 := by
    have hprefix := List.take_subset_take_left (u ++ a :: more) hlt
    rwa [List.append_cons, List.take_left' (by simp), ← List.append_cons] at hprefix
  have hc : isWord c = true := (hsame a (htake (by simp))).symm.trans ha
  refine Text.not_endsApart_of_forall (List.forall_mem_cons.2 ⟨hc, fun x hx => ?_⟩) hu
  exact (hsame x (htake (by simp [hx]))).trans hc

/-- Where a word begins behind a lexeme and what follows it, what is in front of it ends with no
word. -/
theorem endsApart_of_drop {c a : Char} {rest u more : Text}
    (hdrop : rest.drop (document c rest).2 = u ++ a :: more) (ha : isWord a = true)
    (hu : u.EndsApart) : Text.EndsApart (c :: rest.take (document c rest).2 ++ u) := by
  obtain ⟨hsame, hapart⟩ := document_uniform c rest
  cases u with
  | nil =>
    -- if the lexeme were of word characters, the word would go on behind it
    have hc : isWord c = false := by
      refine Bool.eq_false_iff.2 fun hc => ?_
      have := hapart hc a (by rw [hdrop]; rfl)
      rw [ha] at this
      cases this
    rw [List.append_nil]
    exact Text.endsApart_of_forall
      (List.forall_mem_cons.2 ⟨hc, fun x hx => (hsame x hx).trans hc⟩)
  | cons b u => exact Text.endsApart_append_cons.2 hu

/-- A document has a tag where a run of word characters is the word of a kind. -/
theorem mem_document_tokensFrom_iff {k : Kind} :
    token ∈ document.tokensFrom start t ∧ token.kind = .tag k ↔
      k ∈ Kind.tagged ∧ ∃ u v, t = u ++ (k.word.toList ++ v) ∧
        token = ⟨.tag k, start + u.length, k.word.toList⟩ ∧ u.EndsApart ∧ v.Apart := by
  induction t using segment_induction document generalizing start with
  | nil =>
    refine iff_of_false (fun h => nomatch h.1) ?_
    rintro ⟨hk, u, v, huv, -⟩
    obtain ⟨-, hnil⟩ := List.append_eq_nil_iff.1 huv.symm
    exact Kind.mem_tagged_iff.1 hk (List.append_eq_nil_iff.1 hnil).1
  | cons c rest ih =>
    have hlen := structural_document.length_le c rest
    rw [tokensFrom_cons, List.mem_cons, or_and_right, ih]
    constructor
    · rintro (⟨rfl, hkind⟩ | ⟨hk, u, v, hdrop, rfl, hu, hv⟩)
      · obtain ⟨hc, hword⟩ := eq_of_document_tag hkind
        refine ⟨Kind.mem_tagged_iff.2 (hword ▸ List.cons_ne_nil _ _), [], _, ?_, ?_, nofun,
          (document_uniform c rest).2 hc⟩
        · rw [← hword, List.nil_append, List.cons_append, List.take_append_drop]
        · rw [← hword, ← hkind]
          rfl
      · obtain ⟨a, w, hword⟩ := List.exists_cons_of_ne_nil (Kind.mem_tagged_iff.1 hk)
        have ha : isWord a = true := Kind.isWord_of_mem_word (hword ▸ List.mem_cons_self)
        refine ⟨hk, c :: rest.take (document c rest).2 ++ u, v, ?_, ?_,
          endsApart_of_drop (by rw [hdrop, hword]; rfl) ha hu, hv⟩
        · rw [List.cons_append, List.cons_append, List.append_assoc, ← hdrop,
            List.take_append_drop]
        · rw [List.length_append, List.length_cons]
          congr 1
          omega
    · rintro ⟨hk, u, v, huv, rfl, hu, hv⟩
      obtain ⟨a, w, hword⟩ := List.exists_cons_of_ne_nil (Kind.mem_tagged_iff.1 hk)
      have ha : isWord a = true := Kind.isWord_of_mem_word (hword ▸ List.mem_cons_self)
      cases u with
      | nil =>
        rw [List.nil_append, hword, List.cons_append] at huv
        obtain ⟨rfl, rfl⟩ := List.cons.inj huv
        have hrun : c :: (w ++ v).takeWhile isWord = k.word.toList := by
          rw [← List.takeWhile_cons_of_pos ha, ← List.cons_append, ← hword, hv.takeWhile_append,
            k.takeWhile_word]
        refine .inl ⟨?_, rfl⟩
        rw [document_eq_tag hk hrun, take_length_takeWhile, hrun]
        rfl
      | cons x u =>
        rw [List.cons_append] at huv
        obtain ⟨rfl, rfl⟩ := List.cons.inj huv
        have hle : (document c (u ++ (k.word.toList ++ v))).2 ≤ u.length := by
          rw [hword]
          exact document_le_of_isWord hu ha (w ++ v)
        refine .inr ⟨hk, u.drop (document c (u ++ (k.word.toList ++ v))).2, v,
          List.drop_append_of_le_length hle, ?_, hu.drop _, hv⟩
        rw [List.length_take, List.length_drop, List.length_cons]
        congr 1
        omega

theorem mem_document_tokens_iff {k : Kind} :
    token ∈ document.tokens t ∧ token.kind = .tag k ↔
      k ∈ Kind.tagged ∧ ∃ u v, t = u ++ (k.word.toList ++ v) ∧
        token = ⟨.tag k, u.length, k.word.toList⟩ ∧ u.EndsApart ∧ v.Apart := by
  have h := @mem_document_tokensFrom_iff t 0 token k
  simp only [Nat.zero_add] at h
  exact h

/-! ## The three scanners -/

/-- The scanners with their vocabularies. -/
inductive Speaks : Lexer → Vocabulary → Prop where
  | directive : Speaks directive Vocabulary.directive
  | document : Speaks document Vocabulary.document
  | table : Speaks table Vocabulary.table

theorem Speaks.follows {rules : Vocabulary} (h : Speaks lexer rules) : lexer.Follows rules := by
  cases h with
  | directive => exact follows_directive
  | document => exact follows_document
  | table => exact follows_table

/-- A scan of a text with one of the three vocabularies gives the tokens of the scanner, so nothing
in it is an error, and these spell the text without a gap. In markup just the braces are tokens of
blocks. A token is the keyword of a directive where the text reads so and goes on with no word, and
a tag where a run of word characters is the word of a kind. The tokens of markup between two braces
are those that it has on its own. -/
theorem scans_exactly (t : Text) :
    (∀ lexer rules, Speaks lexer rules →
      (∀ out, rules.Scans t (.start t) out ↔ out = (lexer.tokens t).map .ofToken) ∧
      Lossless t (lexer.tokens t)) ∧
    (∀ lexer, lexer = directive ∨ lexer = document → ∀ token,
      (token ∈ lexer.tokens t ∧ token.kind = .blockStart ↔
        ∃ u v, t = u ++ '\x7b' :: v ∧ token = ⟨.blockStart, u.length, ['\x7b']⟩) ∧
      (token ∈ lexer.tokens t ∧ token.kind = .blockEnd ↔
        ∃ u v, t = u ++ '\x7d' :: v ∧ token = ⟨.blockEnd, u.length, ['\x7d']⟩)) ∧
    (∀ d start, (∃ token ∈ directive.tokens t, token.kind = .directive d ∧ token.start = start) ↔
      ∃ u v, t = u ++ (d.keyword.toList ++ v) ∧ u.length = start ∧ v.Apart) ∧
    (∀ token k, token ∈ document.tokens t ∧ token.kind = .tag k ↔
      k ∈ Kind.tagged ∧ ∃ u v, t = u ++ (k.word.toList ++ v) ∧
        token = ⟨.tag k, u.length, k.word.toList⟩ ∧ u.EndsApart ∧ v.Apart) ∧
    ∀ lexer, lexer = directive ∨ lexer = document → ∀ a s b, t = a ++ s ++ b →
      (∀ x ∈ a.getLast?, isBrace x = true) → (∀ x ∈ b.head?, isBrace x = true) →
      lexer.tokens t = lexer.tokens a ++ (lexer.tokens s).map (.shift a.length) ++
        (lexer.tokens b).map (.shift (a.length + s.length)) := by
  refine ⟨fun lexer rules hrules => ⟨fun out => ?_, lossless lexer t⟩, fun lexer hlexer token => ?_,
    fun d start => ?_, fun token k => ?_, fun lexer hlexer a s b ht ha hb => ?_⟩
  · exact hrules.follows.scans_between_iff (u := [])
  · have hl := structural_of_markup hlexer
    exact ⟨hl.marks_opening.mem_tokens_iff hl, hl.marks_closing.mem_tokens_iff hl⟩
  · exact keyword_iff
  · exact mem_document_tokens_iff
  · have hl := structural_of_markup hlexer
    subst ht
    show lexer.tokensFrom 0 _ = _
    rw [hl.tokensFrom_append_of_head? hb, hl.tokensFrom_append_of_getLast? ha, Nat.zero_add,
      Nat.zero_add, List.length_append, tokensFrom_eq_map lexer a.length,
      tokensFrom_eq_map lexer (a.length + s.length)]
    rfl

/-- The argument of a keyword is a tag where it stands and on its own. -/
theorem scans_exactly_argument :
    (Vocabulary.document.Scans "a\x7bmain\x7d".toList (.start "a\x7bmain\x7d".toList)
      [⟨0, some .other, ['a']⟩, ⟨1, some .blockStart, ['\x7b']⟩,
        ⟨2, some (.tag .contents), "main".toList⟩, ⟨6, some .blockEnd, ['\x7d']⟩]) ∧
    ((∃ token ∈ directive.tokens "a.link\x7b\x7d".toList,
      token.kind = .directive .link ∧ token.start = 1)) ∧
    document.tokens "a\x7bmain\x7d".toList = document.tokens "a\x7b".toList ++
      (document.tokens "main".toList).map (.shift 2) ++
      (document.tokens "\x7d".toList).map (.shift 6) := by
  obtain ⟨hscan, -, -, -, hparts⟩ := scans_exactly "a\x7bmain\x7d".toList
  obtain ⟨-, -, hkeyword, -, -⟩ := scans_exactly "a.link\x7b\x7d".toList
  have hapart : Text.Apart "\x7b\x7d".toList := by
    intro c hc
    cases hc
    rfl
  refine ⟨?_, ?_, ?_⟩
  · exact ((hscan document _ .document).1 _).2 rfl
  · exact (hkeyword .link 1).2 ⟨"a".toList, "\x7b\x7d".toList, rfl, rfl, hapart⟩
  · refine hparts document (.inr rfl) "a\x7b".toList "main".toList "\x7d".toList rfl ?_ ?_
    · intro x hx
      cases hx
      rfl
    · intro x hx
      cases hx
      rfl

end Lexer

end Bracemark
