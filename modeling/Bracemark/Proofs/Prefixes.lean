import Bracemark.Proofs.Grammar
import Bracemark.Proofs.Lexemes

/-!
# Where markup goes wrong

The parser finds an error at the first token that no document could have there
(`parse_earliest`). What can follow is settled by the kinds of the open containers and of the
tokens alone (`Document.Outlook`): the parser comes through markup just if its outlook does and
has nothing open at the end (`Document.exists_tree_iff`). From every outlook a few braces lead
to such an end (`Document.Outlook.run_closers`), and the tags scanner cuts the beginning of a
markup up to the end of a token as it cuts the whole (`Lexer.tokens_of_prefix`). So the tokens
in front of an error, with the braces that are missing, are those of a markup that parses.
-/

namespace Bracemark

/-! ## The tokens of a beginning -/

/-- A run of elements is found in a beginning that holds all of it. -/
theorem takeWhile_take {α : Type} {p : α → Bool} {t : List α} {n : Nat}
    (h : (t.takeWhile p).length ≤ n) : (t.take n).takeWhile p = t.takeWhile p := by
  induction t generalizing n with
  | nil => rw [List.take_nil]
  | cons c t ih =>
    cases n with
    | zero => exact (List.eq_nil_of_length_eq_zero (Nat.le_zero.1 h)).symm
    | succ n =>
      rw [List.take_succ_cons, List.takeWhile_cons, List.takeWhile_cons]
      by_cases hc : p c = true
      · rw [List.takeWhile_cons_of_pos hc, List.length_cons] at h
        simp only [hc, if_true, ih (Nat.le_of_succ_le_succ h)]
      · simp only [if_neg hc]

namespace Lexer

/-- The scanner of tags looks no further than to the end of what it takes. -/
theorem document_take {c : Char} {rest : Text} {n : Nat} (h : (document c rest).2 ≤ n) :
    document c (rest.take n) = document c rest := by
  unfold document at h ⊢
  by_cases hblank : isBlank c = true
  · simp only [hblank, if_true] at h ⊢
    rw [takeWhile_take h]
  simp only [if_neg hblank] at h ⊢
  by_cases hopening : c = '\x7b'
  · simp only [hopening, if_true]
  simp only [if_neg hopening] at h ⊢
  by_cases hclosing : c = '\x7d'
  · simp only [hclosing, if_true]
  simp only [if_neg hclosing] at h ⊢
  by_cases hword : isWord c = true
  · simp only [hword, if_true] at h ⊢
    have hle : (rest.takeWhile isWord).length ≤ n := by
      split at h
      · exact h
      · exact h
    rw [takeWhile_take hle]
  · simp only [if_neg hword] at h ⊢
    rw [takeWhile_take h]

/-- The first lexemes of a markup are the lexemes of what they spell. -/
theorem lexemes_of_prefix {es : List (TokenKind × Text)} {t : Text}
    (h : es <+: document.lexemes t) : document.lexemes (es.flatMap (·.2)) = es := by
  induction t using segment_induction document generalizing es with
  | nil =>
    rw [List.prefix_nil.1 h]
    rfl
  | cons c rest ih =>
    cases es with
    | nil => rfl
    | cons e es =>
      rw [lexemes_cons] at h
      obtain ⟨rfl, hes⟩ := List.cons_prefix_cons.1 h
      have ih := ih hes
      obtain ⟨more, hmore⟩ := hes
      have hspelled : es.flatMap (·.2) ++ more.flatMap (·.2) =
          rest.drop (document c rest).2 := by
        rw [← List.flatMap_append, hmore, flatMap_lexemes]
      have hle := structural_document.length_le c rest
      -- what the lexemes spell is a beginning of the markup, and holds the first lexeme
      have htake : rest.take ((document c rest).2 + (es.flatMap (·.2)).length) =
          rest.take (document c rest).2 ++ es.flatMap (·.2) := by
        rw [List.take_add, ← hspelled, List.take_left]
      have hlexeme : document c (rest.take ((document c rest).2 + (es.flatMap (·.2)).length)) =
          document c rest := document_take (Nat.le_add_right _ _)
      rw [htake] at hlexeme
      have hlength : (rest.take (document c rest).2).length = (document c rest).2 :=
        List.length_take_of_le hle
      rw [List.flatMap_cons, List.cons_append, lexemes_cons, hlexeme,
        List.take_left' hlength, List.drop_left' hlength, ih]

theorem exists_of_prefix_placeFrom {ts : List Token} {start : Nat}
    {es : List (TokenKind × Text)} (h : ts <+: Token.placeFrom start es) :
    ∃ first, first <+: es ∧ ts = Token.placeFrom start first := by
  induction es generalizing ts start with
  | nil => exact ⟨[], List.nil_prefix, List.prefix_nil.1 h⟩
  | cons e es ih =>
    cases ts with
    | nil => exact ⟨[], List.nil_prefix, rfl⟩
    | cons t ts =>
      rw [Token.placeFrom] at h
      obtain ⟨rfl, hts⟩ := List.cons_prefix_cons.1 h
      obtain ⟨first, hfirst, rfl⟩ := ih hts
      exact ⟨e :: first, List.cons_prefix_cons.2 ⟨rfl, hfirst⟩, rfl⟩

/-- The first tokens of a markup are the tokens of what they spell. -/
theorem tokens_of_prefix {ts : List Token} {markup : Text} (h : ts <+: document.tokens markup) :
    document.tokens (ts.flatMap (·.text)) = ts := by
  obtain ⟨first, hfirst, rfl⟩ := exists_of_prefix_placeFrom h
  rw [flatMap_placeFrom, tokens, lexemes_of_prefix hfirst]

theorem map_kind_placeFrom (start : Nat) (es : List (TokenKind × Text)) :
    (Token.placeFrom start es).map (·.kind) = es.map (·.1) := by
  induction es generalizing start with
  | nil => rfl
  | cons e es ih => rw [Token.placeFrom, List.map_cons, List.map_cons, ih]

end Lexer

namespace Document

/-! ## What can follow -/

/-- What the parser waits for: a child of the current container, the block of a tag, or the end
of a leaf in which a number of blocks are open. -/
inductive Awaited where
  | child
  | block (kind : Kind)
  | closing (depth : Nat)

/-- What of a state of the parser settles which tokens can follow. -/
structure Outlook where
  current : Kind
  outer : List Kind
  awaited : Awaited

namespace Outlook

def start : Outlook := ⟨.root, [], .child⟩

/-- What can follow behind a token, if the token can. -/
def step (o : Outlook) (k : TokenKind) : Option Outlook :=
  match o.awaited, k with
  | .child, .blank | .child, .other => some o
  | .child, .tag kind =>
    if o.current.accepts kind then some { o with awaited := .block kind } else none
  | .child, .blockEnd => match o.outer with
    | [] => none
    | parent :: others => some ⟨parent, others, .child⟩
  | .child, _ => none
  | .block _, .blank => some o
  | .block kind, .blockStart =>
    if kind.isLeaf then some { o with awaited := .closing 0 }
    else some ⟨kind, o.current :: o.outer, .child⟩
  | .block _, _ => none
  | .closing depth, .blockStart => some { o with awaited := .closing (depth + 1) }
  | .closing 0, .blockEnd => some { o with awaited := .child }
  | .closing (inner + 1), .blockEnd => some { o with awaited := .closing inner }
  | .closing _, _ => some o

def run (o : Outlook) (ks : List TokenKind) : Option Outlook := ks.foldlM step o

/-- Nothing is open. -/
structure Done (o : Outlook) : Prop where
  outer : o.outer = []
  awaited : o.awaited = .child

theorem run_cons (o : Outlook) (k : TokenKind) (ks : List TokenKind) :
    o.run (k :: ks) = (o.step k).bind (run · ks) := rfl

theorem run_append (o : Outlook) (ks more : List TokenKind) :
    o.run (ks ++ more) = (o.run ks).bind (run · more) :=
  List.foldlM_append

/-! ## The braces that are missing -/

/-- The braces that end all that is open. -/
def closers (o : Outlook) : Text :=
  match o.awaited with
  | .child => List.replicate o.outer.length '\x7d'
  | .block _ => '\x7b' :: List.replicate (o.outer.length + 1) '\x7d'
  | .closing depth => List.replicate (o.outer.length + (depth + 1)) '\x7d'

theorem closers_cases (o : Outlook) :
    o.closers = [] ∨ ∃ b post, isBrace b = true ∧ o.closers = b :: post := by
  unfold closers
  cases o.awaited with
  | child =>
    cases o.outer with
    | nil => exact .inl rfl
    | cons parent others => exact .inr ⟨'\x7d', _, rfl, rfl⟩
  | block kind => exact .inr ⟨'\x7b', _, rfl, rfl⟩
  | closing depth => exact .inr ⟨'\x7d', _, rfl, rfl⟩

theorem kinds_replicate (n : Nat) :
    (Lexer.document.lexemes (List.replicate n '\x7d')).map (·.1) =
      List.replicate n .blockEnd := by
  induction n with
  | zero => rfl
  | succ n ih =>
    rw [List.replicate_succ, Lexer.structural_document.lexemes_closing, List.map_cons, ih,
      List.replicate_succ]

theorem run_child (current : Kind) (outer : List Kind) :
    ∃ o, run ⟨current, outer, .child⟩ (List.replicate outer.length .blockEnd) = some o ∧
      o.Done := by
  induction outer generalizing current with
  | nil => exact ⟨_, rfl, rfl, rfl⟩
  | cons parent others ih => exact ih parent

theorem run_closing (current : Kind) (outer : List Kind) (depth : Nat) (ks : List TokenKind) :
    run ⟨current, outer, .closing depth⟩ (List.replicate (depth + 1) .blockEnd ++ ks) =
      run ⟨current, outer, .child⟩ ks := by
  induction depth with
  | zero => rfl
  | succ depth ih => exact ih

/-- Everything that is open can be ended. -/
theorem run_closers (o : Outlook) :
    ∃ last, o.run ((Lexer.document.lexemes o.closers).map (·.1)) = some last ∧ last.Done := by
  obtain ⟨current, outer, awaited⟩ := o
  unfold closers
  cases awaited with
  | child =>
    simp only [kinds_replicate]
    exact run_child current outer
  | block kind =>
    simp only [Lexer.structural_document.lexemes_opening, List.map_cons, kinds_replicate]
    rw [run_cons]
    unfold step
    by_cases hleaf : kind.isLeaf = true
    · simp only [hleaf, if_true, Option.bind_some]
      exact run_child current outer
    · simp only [hleaf]
      exact run_child kind (current :: outer)
  | closing depth =>
    simp only [kinds_replicate]
    rw [Nat.add_comm, ← List.replicate_append_replicate, run_closing]
    exact run_child current outer

end Outlook

/-! ## The parser and its outlook -/

namespace ParseState

variable {collapse : Bool} {text : Text} {s : ParseState} {t : Token} {f : ParseFault}

def outlook (s : ParseState) : Outlook where
  current := s.current.label.kind
  outer := s.outer.map (·.label.kind)
  awaited := match s.mode with
    | .between => .child
    | .entering _ kind => .block kind
    | .inside _ _ _ depth => .closing depth

/-- A step changes the outlook as the kind of its token says, and is refused just if the
outlook has no place for that. -/
theorem outlook_step (collapse : Bool) (text : Text) (s : ParseState) (t : Token) :
    (s.step collapse text t).toOption.map outlook = s.outlook.step t.kind := by
  obtain ⟨current, outer, mode, closed⟩ := s
  cases mode with
  | between =>
    unfold step stepBetween outlook Outlook.step
    cases t.kind with
    | tag kind =>
      by_cases haccepts : current.label.kind.accepts kind = true
      · simp only [haccepts, if_true]
        rfl
      · simp only [haccepts]
        rfl
    | blockEnd => cases outer <;> rfl
    | _ => rfl
  | entering tag kind =>
    unfold step stepEntering outlook Outlook.step
    cases t.kind with
    | blockStart =>
      by_cases hleaf : kind.isLeaf = true
      · simp only [hleaf, if_true]
        rfl
      · simp only [hleaf]
        rfl
    | _ => rfl
  | inside tag kind opening depth =>
    unfold step stepInside outlook Outlook.step
    cases t.kind with
    | blockEnd => cases depth <;> rfl
    | _ => rfl

theorem outlook_of_step {next : ParseState} (h : s.step collapse text t = .ok next) :
    s.outlook.step t.kind = some next.outlook := by
  rw [← outlook_step collapse text, h]
  rfl

theorem outlook_of_step_error (h : s.step collapse text t = .error f) :
    s.outlook.step t.kind = none := by
  rw [← outlook_step collapse text, h]
  rfl

/-- A run comes to the end of its tokens, or to a token that is refused. -/
theorem run_cases (collapse : Bool) (text : Text) (s : ParseState) (ts : List Token) :
    (∃ last : ParseState, s.outlook.run (ts.map (·.kind)) = some last.outlook ∧
      (run collapse text s ts).1 = last.finish text) ∨
    ∃ (before : List Token) (t : Token) (after : List Token) (last : ParseState) (f : ParseFault),
      ts = before ++ t :: after ∧
      s.outlook.run (before.map (·.kind)) = some last.outlook ∧
      last.step collapse text t = .error f ∧ (run collapse text s ts).1 = .error f := by
  induction ts generalizing s with
  | nil => exact .inl ⟨s, rfl, rfl⟩
  | cons t ts ih =>
    cases hstep : s.step collapse text t with
    | error f =>
      refine .inr ⟨[], t, ts, s, f, rfl, rfl, hstep, ?_⟩
      rw [run, hstep]
    | ok next =>
      have houtlook := outlook_of_step hstep
      rw [run_of_step next hstep]
      rcases ih next with ⟨last, hlast, hfinish⟩ | ⟨before, t', after, last, f, rfl, hlast, hf⟩
      · refine .inl ⟨last, ?_, hfinish⟩
        rw [List.map_cons, Outlook.run_cons, houtlook]
        exact hlast
      · refine .inr ⟨t :: before, t', after, last, f, rfl, ?_, hf⟩
        rw [List.map_cons, Outlook.run_cons, houtlook]
        exact hlast

theorem done_of_finish {tree : Tree} (h : s.finish text = .ok tree) : s.outlook.Done := by
  obtain ⟨current, outer, mode, closed⟩ := s
  cases mode with
  | between =>
    cases outer with
    | nil => exact ⟨rfl, rfl⟩
    | cons parent outer => cases h
  | entering tag kind => cases h
  | inside tag kind opening depth => cases h

theorem finish_of_done (h : s.outlook.Done) (text : Text) : ∃ tree, s.finish text = .ok tree := by
  obtain ⟨current, outer, mode, closed⟩ := s
  cases mode with
  | between =>
    cases outer with
    | nil => exact ⟨current.tree, rfl⟩
    | cons parent outer => cases h.outer
  | entering tag kind => cases h.awaited
  | inside tag kind opening depth => cases h.awaited

end ParseState

/-- Markup parses just if its tokens can follow one another and leave nothing open. -/
theorem exists_tree_iff (collapse : Bool) (markup : Text) :
    (∃ tree, (parse collapse markup).1 = .ok tree) ↔
      ∃ o, Outlook.start.run ((Lexer.document.tokens markup).map (·.kind)) = some o ∧ o.Done := by
  rcases ParseState.run_cases collapse markup {} (Lexer.document.tokens markup) with
    ⟨last, hlast, hfinish⟩ | ⟨before, t, after, last, f, htokens, hlast, hstep, hrun⟩
  · constructor
    · rintro ⟨tree, htree⟩
      exact ⟨_, hlast, ParseState.done_of_finish (hfinish.symm.trans htree)⟩
    · rintro ⟨o, ho, hdone⟩
      rw [Option.some.inj (ho.symm.trans hlast)] at hdone
      obtain ⟨tree, htree⟩ := ParseState.finish_of_done hdone markup
      exact ⟨tree, hfinish.trans htree⟩
  · constructor
    · rintro ⟨tree, htree⟩
      cases hrun.symm.trans htree
    · rintro ⟨o, ho, -⟩
      have hstart : Outlook.start.run (before.map (·.kind)) = some last.outlook := hlast
      rw [htokens, List.map_append, Outlook.run_append, hstart, List.map_cons, Option.bind_some,
        Outlook.run_cons, ParseState.outlook_of_step_error hstep] at ho
      cases ho

/-! ## Viable prefixes -/

/-- The tokens begin some markup that parses. -/
def Viable (collapse : Bool) (ts : List Token) : Prop :=
  ∃ markup tree, (parse collapse markup).1 = .ok tree ∧ ts <+: Lexer.document.tokens markup

section Viable

variable {collapse : Bool} {ts : List Token} {markup : Text}

/-- With the missing braces behind them, tokens that can follow one another are those of a
markup that parses. -/
theorem viable_of_run {o : Outlook} (hts : ts <+: Lexer.document.tokens markup)
    (h : Outlook.start.run (ts.map (·.kind)) = some o) : Viable collapse ts := by
  have hspelled := Lexer.tokens_of_prefix hts
  have htokens : Lexer.document.tokens (ts.flatMap (·.text) ++ o.closers) =
      ts ++ Lexer.document.tokensFrom (ts.flatMap (·.text)).length o.closers := by
    rcases o.closers_cases with hnone | ⟨b, post, hb, hclosers⟩
    · rw [hnone, List.append_nil, hspelled]
      exact (List.append_nil ts).symm
    · have happend := Lexer.structural_document.tokensFrom_append hb 0 (ts.flatMap (·.text)) post
      rw [Nat.zero_add] at happend
      rw [hclosers]
      exact happend.trans (congrArg (· ++ _) hspelled)
  obtain ⟨last, hlast, hdone⟩ := o.run_closers
  have hparses : ∃ tree, (parse collapse (ts.flatMap (·.text) ++ o.closers)).1 = .ok tree := by
    refine (exists_tree_iff collapse _).2 ⟨last, ?_, hdone⟩
    rw [htokens, List.map_append, Lexer.tokensFrom, Lexer.map_kind_placeFrom, Outlook.run_append,
      h]
    exact hlast
  obtain ⟨tree, htree⟩ := hparses
  exact ⟨_, tree, htree, htokens ▸ List.prefix_append ts _⟩

theorem run_of_viable (h : Viable collapse ts) :
    ∃ o, Outlook.start.run (ts.map (·.kind)) = some o := by
  obtain ⟨markup, tree, htree, more, hmore⟩ := h
  obtain ⟨last, hlast, -⟩ := (exists_tree_iff collapse markup).1 ⟨tree, htree⟩
  rw [← hmore, List.map_append, Outlook.run_append] at hlast
  obtain ⟨o, ho, -⟩ := Option.bind_eq_some_iff.1 hlast
  exact ⟨o, ho⟩

end Viable

end Document

/-! ## What a fault says -/

/-- What a complaint of the parser says it has found. -/
def Cause.found? : Cause → Option Found
  | .unexpected _ found => some found
  | .block (.expected _ found) => some found
  | _ => none

namespace Document.ParseState

variable {collapse : Bool} {text : Text} {s : ParseState} {t : Token} {f : ParseFault}

/-- A refused token is what the fault has found, and where. -/
theorem found_of_step (h : s.step collapse text t = .error f) :
    f.cause.found? = some (.ofToken? (some t)) ∧ f.offset = t.start := by
  obtain ⟨current, outer, mode, closed⟩ := s
  cases mode with
  | between =>
    unfold step stepBetween at h
    simp only at h
    split at h
    · cases h
    · cases h
    · split at h
      · cases h
      · cases h
        exact ⟨rfl, rfl⟩
    · split at h
      · cases h
      · cases h
        exact ⟨rfl, rfl⟩
    · cases h
      exact ⟨rfl, rfl⟩
  | entering tag kind =>
    unfold step stepEntering at h
    simp only at h
    split at h
    · cases h
    · split at h
      · cases h
      · cases h
    · cases h
      exact ⟨rfl, rfl⟩
  | inside tag kind opening depth => cases h

/-- At the end of the markup, a container or a leaf is open, or the block of a tag is missing. -/
theorem found_of_finish (h : s.finish text = .error f) :
    f.cause.found? = some .endOfInput ∨ ∃ word, f.cause = .block (.unterminated word) := by
  obtain ⟨current, outer, mode, closed⟩ := s
  cases mode with
  | between =>
    cases outer with
    | nil => cases h
    | cons parent outer =>
      cases h
      exact .inl rfl
  | entering tag kind =>
    cases h
    exact .inl rfl
  | inside tag kind opening depth =>
    cases h
    exact .inr ⟨tag.text, rfl⟩

end Document.ParseState

/-- An error in markup is found at the earliest token. A complaint about a token cites the line
of the token; the tokens in front of it begin some markup that parses, and together with it they
begin none. A complaint about the end of the input or about a block that does not end is made
only where all the tokens begin some markup that parses. There are no other complaints. -/
theorem parse_earliest (ctx : Context) (markup : Text) {s s' : RunState} {e : Failure}
    (h : Compile.parse ctx markup s = .error e s') :
    ∃ d, e = .diagnostic d ∧ d.area = .parse ∧ d.file = ctx.path ∧
      ((∃ before t after, Lexer.document.tokens markup = before ++ t :: after ∧
          d.cause.found? = some (.ofToken? (some t)) ∧ d.line? = some (markup.lineAt t.start) ∧
          Document.Viable ctx.settings.collapse before ∧
          ¬Document.Viable ctx.settings.collapse (before ++ [t])) ∨
        (d.cause.found? = some .endOfInput ∨ ∃ word, d.cause = .block (.unterminated word)) ∧
          Document.Viable ctx.settings.collapse (Lexer.document.tokens markup)) := by
  obtain ⟨t, -, hparse⟩ := Compile.parse_eq ctx markup s
  rw [hparse] at h
  split at h
  case h_1 => cases h
  case h_2 f hf =>
    cases h
    refine ⟨_, rfl, rfl, rfl, ?_⟩
    rcases Document.ParseState.run_cases ctx.settings.collapse markup {}
        (Lexer.document.tokens markup) with
      ⟨last, hlast, hfinish⟩ | ⟨before, t, after, last, f', htokens, hlast, hstep, hrun⟩
    · refine .inr ⟨Document.ParseState.found_of_finish (hfinish.symm.trans hf), ?_⟩
      exact Document.viable_of_run List.prefix_rfl hlast
    · cases hrun.symm.trans hf
      obtain ⟨hfound, hoffset⟩ := Document.ParseState.found_of_step hstep
      refine .inl ⟨before, t, after, htokens, hfound, ?_, ?_, ?_⟩
      · rw [← hoffset]
        rfl
      · exact Document.viable_of_run (htokens ▸ List.prefix_append before _) hlast
      · intro hviable
        obtain ⟨o, ho⟩ := Document.run_of_viable hviable
        have hstart : Document.Outlook.start.run (before.map (·.kind)) = some last.outlook := hlast
        rw [List.map_append, Document.Outlook.run_append, hstart, List.map_singleton,
          Option.bind_some, Document.Outlook.run_cons,
          Document.ParseState.outlook_of_step_error hstep] at ho
        cases ho

/-- A container where none is accepted is refused at its tag, and a leaf that does not end at the
end of the input. -/
theorem parse_earliest_nested :
    (∃ before t after, Lexer.document.tokens "main\x7bmain\x7b\x7d\x7d".toList =
        before ++ t :: after ∧ Found.word "main".toList = .ofToken? (some t) ∧
        Document.Viable true before ∧ ¬Document.Viable true (before ++ [t])) ∧
      Document.Viable true (Lexer.document.tokens "main\x7btext\x7ba".toList) := by
  obtain ⟨s, hnested⟩ := Run.exists_of_failure?
    (r := Compile.parse {} "main\x7bmain\x7b\x7d\x7d".toList {})
    (e := .diagnostic ⟨.parse, "<input>".toList, some 1,
      .unexpected Kind.contents.acceptedWords (.word "main".toList)⟩) (by decide +kernel)
  obtain ⟨s', hunterminated⟩ := Run.exists_of_failure?
    (r := Compile.parse {} "main\x7btext\x7ba".toList {})
    (e := .diagnostic ⟨.parse, "<input>".toList, some 1, .block (.unterminated "text".toList)⟩)
    (by decide +kernel)
  constructor
  · obtain ⟨d, hd, -, -, ⟨before, t, after, htokens, hfound, -, hviable⟩ | ⟨hend, -⟩⟩ :=
      parse_earliest {} _ hnested
    · cases hd
      exact ⟨before, t, after, htokens, Option.some.inj hfound, hviable⟩
    · cases hd
      rcases hend with hend | ⟨word, hend⟩
      · cases hend
      · cases hend
  · obtain ⟨d, hd, -, -, ⟨before, t, after, -, hfound, -⟩ | ⟨-, hviable⟩⟩ :=
      parse_earliest {} _ hunterminated
    · cases hd
      cases hfound
    · exact hviable

end Bracemark
