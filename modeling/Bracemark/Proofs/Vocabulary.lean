import Bracemark.Proofs.Boundaries
import Bracemark.Proofs.Literals

/-!
# Vocabularies

A vocabulary is a list of rules, each a pattern and the kind of what it matches. At every place of a
text the first rule counts whose pattern matches there, and the scan goes on behind the match
(`Vocabulary.Scans`); where no rule matches, a single character is an error. The three scanners are
those of three vocabularies (`Lexer.Follows`): what the scan of a vocabulary gives is the tokens of
the scanner (`Lexer.Follows.scans_iff`), so no character is an error.
-/

namespace Bracemark

namespace Pattern

/-! ## Runs and whole words -/

/-- The place between two parts of a text. -/
def Place.between (u v : Text) : Place := { before := u.reverse, after := v, offset := u.length }

/-- The pattern of one or more characters of a class. -/
def run (test : CharTest) : Node := .iterate 1 none .greedy (.one test)

namespace Member

/-- A character as it is written. -/
def char (a : Char) : Member := .code a.toNat

def blank : Member := .category ⟨.blank, false, false⟩

def word : Member := .category ⟨.word, false, false⟩

end Member

/-- One of some characters. -/
def oneOf (members : List Member) : CharTest := .set members .exact false

/-- Any character but some. -/
def noneOf (members : List Member) : CharTest := .set members .exact true

/-- The pattern of a word that does not go on. -/
def wholeWord (w : Text) : Node :=
  Node.ofItems (w.map letter ++ [.look false true (.one (oneOf [.word]))])

section Matching

variable {subject : Text} {test : CharTest} {accepts : Char → Bool}

theorem Place.forward?_between (u : Text) (c : Char) (rest : Text) :
    (Place.between u (c :: rest)).forward? = some (c, Place.between (u ++ [c]) rest) := by
  simp [Place.forward?, Place.between]

theorem Place.past_between (u w v : Text) :
    (Place.between u (w ++ v)).past w = Place.between (u ++ w) v := by
  simp [Place.past, Place.between]

theorem matcher_one (u : Text) (c : Char) (rest : Text) (k : Continuation) :
    (Node.one test).matcher subject k (Place.between u (c :: rest)) =
      if test.accepts c then k (Place.between (u ++ [c]) rest) else none := by
  rw [Node.matcher, Place.forward?_between]

/-- A loop over the characters of a class takes all of them. -/
theorem greedy_one (subject : Text) (htest : ∀ c, test.accepts c = accepts c) {fuel : Nat}
    {rest : Text} (hfuel : rest.length < fuel) (u : Text) {last : Option Nat}
    (hlast : last ≠ some u.length) :
    Matcher.greedy ((Node.one test).matcher subject) some fuel none last (Place.between u rest) =
      some (Place.between (u ++ rest.takeWhile accepts) (rest.dropWhile accepts)) := by
  induction fuel generalizing rest u last with
  | zero => cases hfuel
  | succ fuel ih =>
    have hagain : Matcher.again none last (Place.between u rest) = true := by
      simp [Matcher.again, Place.between, hlast]
    rw [Matcher.greedy, if_pos hagain]
    cases rest with
    | nil =>
      rw [List.takeWhile_nil, List.append_nil]
      rfl
    | cons c rest =>
      rw [matcher_one, htest]
      by_cases hc : accepts c = true
      · have hlater : some (Place.between u (c :: rest)).offset ≠ some (u ++ [c]).length := by
          simp [Place.between]
        rw [if_pos hc, Option.map_none, ih (Nat.lt_of_succ_lt_succ hfuel) _ hlater,
          List.takeWhile_cons_of_pos hc, List.dropWhile_cons_of_pos hc, List.append_assoc]
        rfl
      · rw [if_neg hc, List.takeWhile_cons_of_neg hc, List.dropWhile_cons_of_neg hc,
          List.append_nil]
        rfl

theorem matcher_run (htest : ∀ c, test.accepts c = accepts c) (u : Text) (c : Char) (rest : Text) :
    (run test).matcher subject some (Place.between u (c :: rest)) =
      if accepts c then some (Place.between (u ++ c :: rest.takeWhile accepts)
        (rest.dropWhile accepts)) else none := by
  rw [run, Node.matcher, Matcher.iterate, Matcher.times, matcher_one, htest]
  by_cases hc : accepts c = true
  · have hfuel : rest.length < rest.length + 2 := Nat.lt_add_of_pos_right Nat.zero_lt_two
    have hlast : none ≠ some (u ++ [c]).length := (Option.some_ne_none _).symm
    have hloop := greedy_one subject htest hfuel (u ++ [c]) hlast
    rw [List.append_assoc] at hloop
    rw [if_pos hc, if_pos hc]
    exact hloop
  · rw [if_neg hc, if_neg hc]

theorem matcher_ofItems_append (w : Text) (items : List Node) (k : Continuation) (p : Place) :
    (Node.ofItems (w.map letter ++ items)).matcher subject k p =
      (Node.ofItems (w.map letter)).matcher subject ((Node.ofItems items).matcher subject k) p := by
  induction w generalizing p with
  | nil => rfl
  | cons c w ih =>
    rw [List.map_cons, List.cons_append, matcher_ofItems_cons, matcher_ofItems_cons]
    congr 1
    funext q
    exact ih q

theorem holds_char (a c : Char) : (Member.char a).holds .exact c = decide (c = a) := by
  by_cases h : c = a
  · simp [Member.char, Member.holds, Folding.agrees, Folding.fold, h]
  · have hne : c.toNat ≠ a.toNat := fun heq => h (Char.toNat_inj.1 heq)
    simp [Member.char, Member.holds, Folding.agrees, Folding.fold, h, hne]

theorem holds_blank (c : Char) : Member.blank.holds .exact c = isBlank c := by
  simp [Member.blank, Member.holds, ClassTest.holds]

theorem holds_word (c : Char) : Member.word.holds .exact c = isWord c := by
  simp [Member.word, Member.holds, ClassTest.holds, inWord]

theorem accepts_oneOf (m : Member) (c : Char) : (oneOf [m]).accepts c = m.holds .exact c := by
  simp [oneOf, CharTest.accepts]

theorem accepts_noneOf (members : List Member) (c : Char) :
    (noneOf members).accepts c = members.all fun m => !m.holds .exact c := by
  rw [noneOf, CharTest.accepts, Bool.bne_true, List.not_any_eq_all_not]

theorem accepts_blank (c : Char) : (oneOf [.blank]).accepts c = isBlank c := by
  rw [accepts_oneOf, holds_blank]

theorem accepts_word (c : Char) : (oneOf [.word]).accepts c = isWord c := by
  rw [accepts_oneOf, holds_word]

theorem accepts_plain (c : Char) :
    (noneOf [.blank, .char '\x7b', .char '\x7d', .char '.']).accepts c = Lexer.isPlain c := by
  simp [accepts_noneOf, holds_blank, holds_char, Lexer.isPlain, Bool.and_assoc]

theorem accepts_mark (c : Char) :
    (noneOf [.blank, .word, .char '\x7b', .char '\x7d']).accepts c = Lexer.isMark c := by
  simp [accepts_noneOf, holds_blank, holds_word, holds_char, Lexer.isMark, Bool.and_assoc]

theorem accepts_item (c : Char) :
    (noneOf [.char '&', .char '$']).accepts c = !(c = '&' || c = '$') := by
  simp [accepts_noneOf, holds_char]

theorem matcher_wordEnd (u v : Text) :
    (Node.look false true (.one (oneOf [.word]))).matcher subject some (Place.between u v) =
      if v.takeWhile isWord = [] then some (Place.between u v) else none := by
  cases v with
  | nil => rfl
  | cons c rest =>
    simp only [Node.matcher, Bool.false_eq_true, if_false, if_true, Option.bind_some,
      Place.forward?_between, accepts_word]
    by_cases hc : isWord c = true
    · rw [if_pos hc, List.takeWhile_cons_of_pos hc, if_neg (List.cons_ne_nil _ _)]
    · rw [if_neg hc, List.takeWhile_cons_of_neg hc]
      rfl

/-- A word that does not go on is all of a run behind its first character. -/
theorem matcher_wholeWord {w : Text} (hne : w ≠ []) (hw : ∀ x ∈ w.tail, isWord x = true) (u : Text)
    (c : Char) (rest : Text) : (wholeWord w).matcher subject some (Place.between u (c :: rest)) =
      if c :: rest.takeWhile isWord = w
        then some (Place.between (u ++ c :: rest.takeWhile isWord) (rest.dropWhile isWord))
        else none := by
  obtain ⟨a, more, rfl⟩ := List.exists_cons_of_ne_nil hne
  rw [List.tail_cons] at hw
  have hafter : (Place.between u (c :: rest)).after = c :: rest := rfl
  rw [wholeWord, matcher_ofItems_append, matcher_word, hafter]
  by_cases hprefix : a :: more <+: c :: rest
  · obtain ⟨v, hv⟩ := hprefix
    obtain ⟨rfl, hmore⟩ := List.cons.inj hv
    obtain rfl : more ++ v = rest := hmore
    have hplace : (Place.between u (a :: (more ++ v))).past (a :: more) =
        Place.between (u ++ a :: more) v := Place.past_between u (a :: more) v
    rw [if_pos ⟨v, hv⟩, hplace, List.takeWhile_append_of_pos hw, List.dropWhile_append_of_pos hw]
    refine (matcher_wordEnd _ v).trans ?_
    cases v with
    | nil => simp
    | cons b v => by_cases hb : isWord b = true <;> simp [hb]
  · rw [if_neg hprefix, if_neg]
    intro heq
    rw [← heq, List.cons_prefix_cons] at hprefix
    exact hprefix ⟨rfl, List.takeWhile_prefix _⟩

theorem matcher_wholeWord_end {w : Text} (hne : w ≠ []) (u : Text) :
    (wholeWord w).matcher subject some (Place.between u []) = none := by
  rw [wholeWord, matcher_ofItems_append, matcher_word, if_neg]
  exact fun h => hne (List.prefix_nil.1 h)

end Matching

end Pattern

/-! ## Rules -/

/-- A pattern as it is written, and the kind of what it matches. -/
structure Vocabulary.Rule where
  source : Text
  kind : TokenKind

/-- Rules in the order in which they are tried. -/
abbrev Vocabulary := List Vocabulary.Rule

namespace Vocabulary

open Pattern (Node Place)

/-- The place behind what a rule matches at a place. -/
def Rule.match? (r : Rule) (subject : Text) (p : Place) : Option Place :=
  match Pattern.ofText r.source with
  | .ok pattern => (pattern.matchAt? subject false p).map (·.2)
  | .error _ => none

/-- The kind of the first rule that matches at a place, and the place behind the match. -/
def first? (rules : Vocabulary) (subject : Text) (p : Place) : Option (TokenKind × Place) :=
  rules.findSome? fun r => (r.match? subject p).map fun q => (r.kind, q)

/-- A piece that is cut off a text, without a kind if it is an error. -/
structure Piece where
  start : Nat
  kind? : Option TokenKind
  text : Text

/-- A token as a piece of the text. -/
def Piece.ofToken (t : Token) : Piece := ⟨t.start, some t.kind, t.text⟩

/-- How a text is cut from a place on. Where no rule matches, a line break is a blank, and any other
character an error. -/
inductive Scans (rules : Vocabulary) (subject : Text) : Place → List Piece → Prop where
  | rule {p q : Place} {kind : TokenKind} {more : List Piece}
      (first : rules.first? subject p = some (kind, q)) (rest : Scans rules subject q more) :
      Scans rules subject p (⟨p.offset, some kind, subject.slice p.offset q.offset⟩ :: more)
  | unmatched {p q : Place} {c : Char} {more : List Piece} (first : rules.first? subject p = none)
      (next : p.forward? = some (c, q)) (rest : Scans rules subject q more) :
      Scans rules subject p (⟨p.offset, if c = '\n' then some .blank else none, [c]⟩ :: more)
  | ended {p : Place} (first : rules.first? subject p = none) (next : p.forward? = none) :
      Scans rules subject p []

/-! ## The three vocabularies -/

/-- The characters that get a backslash in front of them. -/
def special : Text := "()[]?*+-|^$\\.&~# \t\n\r\x0b\x0c\x7b\x7d".toList

/-- A text as a pattern for itself. -/
def escaped (t : Text) : Text := t.flatMap fun c => if c ∈ special then ['\\', c] else [c]

/-- The vocabulary of the preprocessing stages. -/
def directive : Vocabulary :=
  ⟨"\\s+".toList, .blank⟩ ::
    (Directive.all.map (fun d => ⟨escaped d.keyword.toList ++ "(?!\\w)".toList, .directive d⟩) ++
      [⟨"\\\x7b".toList, .blockStart⟩, ⟨"\\\x7d".toList, .blockEnd⟩,
        ⟨"[^\\s\x7b\x7d.]+".toList, .other⟩, ⟨"\\.".toList, .other⟩])

/-- The vocabulary of documents. -/
def document : Vocabulary :=
  ⟨"\\s+".toList, .blank⟩ ::
    (Kind.tagged.map (fun k => ⟨k.word.toList ++ "(?!\\w)".toList, .tag k⟩) ++
      [⟨"\\\x7b".toList, .blockStart⟩, ⟨"\\\x7d".toList, .blockEnd⟩,
        ⟨"\\w+".toList, .other⟩, ⟨"[^\\s\\w\x7b\x7d]+".toList, .other⟩])

/-- The vocabulary of tabular text. -/
def table : Vocabulary :=
  [⟨"&".toList, .nextItem⟩, ⟨"\\$".toList, .nextRow⟩, ⟨"[^&$]+".toList, .other⟩]

/-! ## Rules as they are read -/

/-- The tree of a pattern, and the kind of what it matches. -/
abbrev Tree := Node × TokenKind

/-- The rules as they are read, in the same order. -/
def Reads (rules : Vocabulary) (trees : List Tree) : Prop :=
  rules.map (fun r => ((Pattern.ofText r.source).toOption.map (·.root), r.kind)) =
    trees.map fun t => (some t.1, t.2)

def directiveTrees : List Tree :=
  (Pattern.run (Pattern.oneOf [.blank]), .blank) ::
    (Directive.all.map (fun d => (Pattern.wholeWord ('.' :: d.name.toList), .directive d)) ++
      [(Pattern.letter '\x7b', .blockStart), (Pattern.letter '\x7d', .blockEnd),
        (Pattern.run (Pattern.noneOf [.blank, .char '\x7b', .char '\x7d', .char '.']), .other),
        (Pattern.letter '.', .other)])

def documentTrees : List Tree :=
  (Pattern.run (Pattern.oneOf [.blank]), .blank) ::
    (Kind.tagged.map (fun k => (Pattern.wholeWord k.word.toList, .tag k)) ++
      [(Pattern.letter '\x7b', .blockStart), (Pattern.letter '\x7d', .blockEnd),
        (Pattern.run (Pattern.oneOf [.word]), .other),
        (Pattern.run (Pattern.noneOf [.blank, .word, .char '\x7b', .char '\x7d']), .other)])

def tableTrees : List Tree :=
  [(Pattern.letter '&', .nextItem), (Pattern.letter '$', .nextRow),
    (Pattern.run (Pattern.noneOf [.char '&', .char '$']), .other)]

theorem reads_directive : directive.Reads directiveTrees := by
  unfold Reads
  decide +kernel

theorem reads_document : document.Reads documentTrees := by
  unfold Reads
  decide +kernel

theorem reads_table : table.Reads tableTrees := by
  unfold Reads
  decide +kernel

/-- The kind of the first tree that matches at a place, and the place behind the match. -/
def firstOf (trees : List Tree) (subject : Text) (p : Place) : Option (TokenKind × Place) :=
  trees.findSome? fun t =>
    (t.1.matcher subject some p).map fun q => (t.2, { q with marks := [] })

/-- What a rule matches depends on the tree of its pattern. -/
theorem Rule.match?_eq (r : Rule) (subject : Text) (p : Place) : r.match? subject p =
    ((Pattern.ofText r.source).toOption.map (·.root)).bind fun root =>
      (root.matcher subject some p).map fun q => { q with marks := [] } := by
  unfold match?
  cases Pattern.ofText r.source with
  | error e => rfl
  | ok pattern =>
    unfold Pattern.matchAt?
    exact Option.map_map ..

theorem Reads.first?_eq {rules : Vocabulary} {trees : List Tree} (h : rules.Reads trees)
    (subject : Text) (p : Place) : rules.first? subject p = firstOf trees subject p := by
  induction rules generalizing trees with
  | nil =>
    obtain rfl := List.map_eq_nil_iff.1 h.symm
    rfl
  | cons r rules ih =>
    cases trees with
    | nil => cases h
    | cons t trees =>
      obtain ⟨ht, htrees⟩ := List.cons.inj h
      obtain ⟨hroot, hkind⟩ := Prod.mk.inj ht
      have hrest := ih htrees
      unfold first? firstOf at hrest ⊢
      rw [List.findSome?_cons, List.findSome?_cons, r.match?_eq, hroot, hkind, hrest,
        Option.bind_some, Option.map_map]
      rfl

section First

variable {trees : List Tree} {subject : Text} {kind : TokenKind} (u : Text)
  (c : Char) (rest : Text)

theorem firstOf_run {test : Pattern.CharTest} {accepts : Char → Bool}
    (htest : ∀ c, test.accepts c = accepts c) :
    firstOf ((Pattern.run test, kind) :: trees) subject (Place.between u (c :: rest)) =
      if accepts c then some (kind, Place.between (u ++ c :: rest.takeWhile accepts)
        (rest.dropWhile accepts))
      else firstOf trees subject (Place.between u (c :: rest)) := by
  rw [firstOf, List.findSome?_cons, Pattern.matcher_run htest]
  by_cases h : accepts c = true
  · rw [if_pos h, if_pos h]
    rfl
  · rw [if_neg h, if_neg h]
    rfl

theorem firstOf_letter (a : Char) :
    firstOf ((Pattern.letter a, kind) :: trees) subject (Place.between u (c :: rest)) =
      if c = a then some (kind, Place.between (u ++ [c]) rest)
      else firstOf trees subject (Place.between u (c :: rest)) := by
  rw [firstOf, List.findSome?_cons, Pattern.letter, Pattern.matcher_one, Pattern.accepts_letter]
  by_cases h : c = a
  · rw [if_pos h, if_pos (decide_eq_true h.symm)]
    rfl
  · rw [if_neg h, if_neg (by simpa using Ne.symm h)]
    rfl

/-- Of whole words, the one matches that is the run at the place. -/
theorem firstOf_words {α : Type} {word : α → Text} {kind : α → TokenKind} {as : List α}
    (h : ∀ a ∈ as, word a ≠ [] ∧ ∀ x ∈ (word a).tail, isWord x = true) :
    firstOf (as.map (fun a => (Pattern.wholeWord (word a), kind a)) ++ trees) subject
        (Place.between u (c :: rest)) =
      match as.find? fun a => c :: rest.takeWhile isWord = word a with
      | some a => some (kind a, Place.between (u ++ c :: rest.takeWhile isWord)
          (rest.dropWhile isWord))
      | none => firstOf trees subject (Place.between u (c :: rest)) := by
  induction as with
  | nil => rfl
  | cons a as ih =>
    obtain ⟨⟨hne, hword⟩, has⟩ := List.forall_mem_cons.1 h
    rw [List.map_cons, List.cons_append, firstOf, List.findSome?_cons,
      Pattern.matcher_wholeWord hne hword, List.find?_cons]
    by_cases heq : c :: rest.takeWhile isWord = word a
    · rw [if_pos heq, decide_eq_true heq]
      rfl
    · rw [if_neg heq, decide_eq_false heq]
      exact ih has

theorem firstOf_end (h : ∀ t ∈ trees, t.1.matcher subject some (Place.between u []) = none) :
    firstOf trees subject (Place.between u []) = none :=
  List.findSome?_eq_none_iff.2 fun t ht => by rw [h t ht]; rfl

end First

end Vocabulary

/-! ## Following a vocabulary -/

namespace Lexer

open Pattern (Place)

/-- A scanner takes what the first rule that matches says. -/
structure Follows (lexer : Lexer) (rules : Vocabulary) : Prop where
  first : ∀ u c rest, rules.first? (u ++ c :: rest) (Place.between u (c :: rest)) =
    some ((lexer c rest).1, Place.between (u ++ c :: rest.take (lexer c rest).2)
      (rest.drop (lexer c rest).2))
  last : ∀ u, rules.first? u (Place.between u []) = none

namespace Follows

variable {lexer : Lexer} {rules : Vocabulary}

theorem scans_between_iff (h : lexer.Follows rules) {u t : Text} {out : List Vocabulary.Piece} :
    rules.Scans (u ++ t) (Place.between u t) out ↔
      out = (lexer.tokensFrom u.length t).map .ofToken := by
  induction t using segment_induction lexer generalizing u out with
  | nil =>
    rw [List.append_nil]
    constructor
    · intro hscan
      cases hscan with
      | rule hfirst =>
        rw [h.last] at hfirst
        cases hfirst
      | unmatched hfirst hnext => cases hnext
      | ended => rfl
    · rintro rfl
      exact .ended (h.last u) rfl
  | cons c rest ih =>
    have hfirst := h.first u c rest
    have hslice : (u ++ c :: rest).slice (Place.between u (c :: rest)).offset
        (Place.between (u ++ c :: rest.take (lexer c rest).2)
          (rest.drop (lexer c rest).2)).offset = c :: rest.take (lexer c rest).2 := by
      have := Text.slice_append u (c :: rest.take (lexer c rest).2) (rest.drop (lexer c rest).2)
      rwa [List.append_assoc, List.cons_append, List.take_append_drop, ← List.length_append] at this
    have hstart : (u ++ c :: rest.take (lexer c rest).2).length =
        u.length + 1 + (rest.take (lexer c rest).2).length := by
      rw [List.length_append, List.length_cons]
      omega
    have hmore := @ih (u ++ c :: rest.take (lexer c rest).2)
    rw [List.append_assoc, List.cons_append, List.take_append_drop, hstart] at hmore
    rw [tokensFrom_cons, List.map_cons]
    constructor
    · intro hscan
      cases hscan with
      | rule hfirst' hrest =>
        rw [hfirst] at hfirst'
        cases hfirst'
        rw [hmore.1 hrest]
        rw [hslice]
        rfl
      | unmatched hnone =>
        rw [hfirst] at hnone
        cases hnone
      | ended hnone =>
        rw [hfirst] at hnone
        cases hnone
    · rintro rfl
      have hscan := Vocabulary.Scans.rule hfirst (hmore.2 rfl)
      rw [hslice] at hscan
      exact hscan

end Follows

end Lexer

namespace Kind

theorem mem_tagged_iff {k : Kind} : k ∈ tagged ↔ k.word.toList ≠ [] := by
  cases k <;> decide

theorem ofWord?_word {k : Kind} (hk : k ∈ tagged) : ofWord? k.word.toList = some k := by
  revert k
  decide

theorem ofWord?_eq_none {c : Char} (hc : isWord c = false) (t : Text) :
    ofWord? (c :: t) = none := by
  refine List.find?_eq_none.2 fun k _ hk => ?_
  have hword : k.word.toList = c :: t := of_decide_eq_true hk
  rw [isWord_of_mem_word (hword ▸ List.mem_cons_self)] at hc
  cases hc

end Kind

namespace Lexer

open Vocabulary (firstOf_run firstOf_letter firstOf_words firstOf_end)

theorem follows_directive : Follows directive Vocabulary.directive where
  first u c rest := by
    have hfind : (Directive.all.find? fun d =>
        c :: rest.takeWhile isWord = '.' :: d.name.toList) = Text.directive? (c :: rest) := by
      by_cases hc : c = '.'
      · simp [Text.directive?, Directive.ofName?, hc, eq_comm]
      · rw [Text.directive?_of_ne hc]
        exact List.find?_eq_none.2 fun d _ => by simp [hc]
    rw [Vocabulary.reads_directive.first?_eq, Vocabulary.directiveTrees,
      firstOf_run _ _ _ Pattern.accepts_blank,
      firstOf_words _ _ _ fun d _ => ⟨List.cons_ne_nil _ _, fun _ => d.isWord_of_mem_name⟩, hfind,
      firstOf_letter, firstOf_letter, firstOf_run _ _ _ Pattern.accepts_plain, firstOf_letter]
    rcases directive_cases c rest with ⟨hb, h⟩ | ⟨rfl, h⟩ | ⟨rfl, h⟩ | ⟨d, rfl, hname, h⟩ |
      ⟨rfl, hname, h⟩ | ⟨hb, hbrace, hstop, h⟩
    · rw [h, if_pos hb, take_length_takeWhile, drop_length_takeWhile]
    · rw [h]
      rfl
    · rw [h]
      rfl
    · rw [h, Text.directive?_stop, hname, Directive.ofName?_name, ← hname, take_length_takeWhile,
        drop_length_takeWhile]
      rfl
    · rw [h, Text.directive?_stop, hname]
      rfl
    · have hplain : isPlain c = true := by
        rw [isBrace, Bool.or_eq_false_iff] at hbrace
        simp [isPlain, hb, hbrace.1, hbrace.2, hstop]
      rw [isBrace, Bool.or_eq_false_iff, decide_eq_false_iff_not, decide_eq_false_iff_not] at hbrace
      rw [h, if_neg (Bool.eq_false_iff.1 hb), Text.directive?_of_ne hstop, if_neg hbrace.1,
        if_neg hbrace.2, if_pos hplain, take_length_takeWhile, drop_length_takeWhile]
  last u := by
    rw [Vocabulary.reads_directive.first?_eq]
    refine firstOf_end u ?_
    simp only [Vocabulary.directiveTrees, List.forall_mem_cons, List.forall_mem_append,
      List.forall_mem_map]
    exact ⟨rfl, fun d _ => Pattern.matcher_wholeWord_end (List.cons_ne_nil _ _) u, rfl, rfl, rfl,
      rfl, List.forall_mem_nil _⟩

theorem follows_document : Follows document Vocabulary.document where
  first u c rest := by
    have hfind : (Kind.tagged.find? fun k => c :: rest.takeWhile isWord = k.word.toList) =
        Kind.ofWord? (c :: rest.takeWhile isWord) := by
      simp [Kind.ofWord?, eq_comm]
    rw [Vocabulary.reads_document.first?_eq, Vocabulary.documentTrees,
      firstOf_run _ _ _ Pattern.accepts_blank,
      firstOf_words _ _ _ fun k hk => ⟨Kind.mem_tagged_iff.1 hk,
        fun _ hx => Kind.isWord_of_mem_word (List.mem_of_mem_tail hx)⟩, hfind,
      firstOf_letter, firstOf_letter, firstOf_run _ _ _ Pattern.accepts_word,
      firstOf_run _ _ _ Pattern.accepts_mark]
    unfold document
    by_cases hb : isBlank c = true
    · simp only [if_pos hb, take_length_takeWhile, drop_length_takeWhile]
    by_cases ho : c = '\x7b'
    · subst ho
      rfl
    by_cases hc : c = '\x7d'
    · subst hc
      rfl
    simp only [if_neg hb, if_neg ho, if_neg hc]
    by_cases hw : isWord c = true
    · simp only [if_pos hw]
      cases Kind.ofWord? (c :: rest.takeWhile isWord) <;>
        simp only [take_length_takeWhile, drop_length_takeWhile]
    · have hmark : isMark c = true := by
        simp [isMark, hb, ho, hc, hw]
      simp only [if_neg hw, if_pos hmark, Kind.ofWord?_eq_none (Bool.eq_false_iff.2 hw),
        take_length_takeWhile, drop_length_takeWhile]
  last u := by
    rw [Vocabulary.reads_document.first?_eq]
    refine firstOf_end u ?_
    simp only [Vocabulary.documentTrees, List.forall_mem_cons, List.forall_mem_append,
      List.forall_mem_map]
    exact ⟨rfl, fun k hk => Pattern.matcher_wholeWord_end (Kind.mem_tagged_iff.1 hk) u, rfl, rfl,
      rfl, rfl, List.forall_mem_nil _⟩

theorem follows_table : Follows table Vocabulary.table where
  first u c rest := by
    rw [Vocabulary.reads_table.first?_eq, Vocabulary.tableTrees, firstOf_letter, firstOf_letter,
      firstOf_run _ _ _ Pattern.accepts_item]
    unfold table
    by_cases hi : c = '&'
    · subst hi
      rfl
    by_cases hr : c = '$'
    · subst hr
      rfl
    simp [hi, hr, take_length_takeWhile, drop_length_takeWhile]
  last u := by
    rw [Vocabulary.reads_table.first?_eq]
    refine firstOf_end u ?_
    simp only [Vocabulary.tableTrees, List.forall_mem_cons]
    exact ⟨rfl, rfl, rfl, List.forall_mem_nil _⟩

end Lexer

end Bracemark
