import Bracemark.Pattern.Template
import Bracemark.Proofs.Protection
import Bracemark.Proofs.Runs

/-!
# Patterns that are words

A word none of whose characters means anything to a pattern is read as the sequence of its
characters (`Pattern.ofText_literal`). It matches where the word stands and nowhere else, in one
way. So the matches are the occurrences of the word from left to right, each of which begins behind
the one before it, and a template without backslashes takes the place of each
(`Pattern.replaceAll_literal`).
-/

namespace Bracemark

/-! ## Replacing a word -/

namespace Text

/-- What replacing a word finds at one character: the word, or a character that stays. -/
def replaceStep (w r : Text) (c : Char) (rest : Text) : Text × Nat :=
  if w.isPrefixOf (c :: rest) then (r, w.length - 1) else ([c], 0)

/-- The text with every occurrence of the word `w` replaced by `r`. Occurrences are taken from left
to right and do not overlap. -/
def replaceWord (w r t : Text) : Text := (segment (replaceStep w r) 0 t).flatten

variable {w r t rest : Text} {c : Char}

@[simp] theorem replaceWord_nil (w r : Text) : replaceWord w r [] = [] := rfl

theorem replaceWord_hit (hw : w ≠ []) (r rest : Text) :
    replaceWord w r (w ++ rest) = r ++ replaceWord w r rest := by
  obtain ⟨x, w, rfl⟩ := List.exists_cons_of_ne_nil hw
  have hstep : replaceStep (x :: w) r x (w ++ rest) = (r, w.length) :=
    if_pos (List.isPrefixOf_iff_prefix.2 (List.prefix_append (x :: w) rest))
  rw [replaceWord, List.cons_append, segment_zero_cons, hstep, List.drop_left]
  rfl

theorem replaceWord_skip (h : ¬w <+: c :: rest) (r : Text) :
    replaceWord w r (c :: rest) = c :: replaceWord w r rest := by
  have hstep : replaceStep w r c rest = ([c], 0) :=
    if_neg (mt List.isPrefixOf_iff_prefix.1 h)
  rw [replaceWord, segment_zero_cons, hstep]
  rfl

/-- Induction along the occurrences of a word. -/
@[elab_as_elim]
theorem replace_induction {motive : Text → Prop} {w : Text} (hw : w ≠ []) (nil : motive [])
    (hit : ∀ rest, motive rest → motive (w ++ rest))
    (skip : ∀ c rest, ¬w <+: c :: rest → motive rest → motive (c :: rest)) (t : Text) :
    motive t := by
  induction t using suffix_induction with
  | nil => exact nil
  | cons c rest ih =>
    by_cases h : w <+: c :: rest
    · obtain ⟨more, hsplit⟩ := h
      rw [← hsplit]
      exact hit more (ih more (suffix_of_append_eq_cons hw hsplit))
    · exact skip c rest h (ih rest List.suffix_rfl)

/-- Replacing puts in nothing but the new word. -/
theorem mem_or_of_mem_replaceWord (hw : w ≠ []) (h : c ∈ replaceWord w r t) : c ∈ r ∨ c ∈ t := by
  induction t using replace_induction hw with
  | nil => cases h
  | hit rest ih =>
    rw [replaceWord_hit hw, List.mem_append] at h
    rcases h with h | h
    · exact .inl h
    · exact (ih h).imp_right (List.mem_append_right w)
  | skip x rest hx ih =>
    rw [replaceWord_skip hx, List.mem_cons] at h
    rcases h with rfl | h
    · exact .inr List.mem_cons_self
    · exact (ih h).imp_right (List.mem_cons_of_mem x)

/-- What is of neither word stays as it is. -/
theorem filterMap_replaceWord {α : Type} {f : Char → Option α} (hw : w ≠ [])
    (hf : ∀ x ∈ w ++ r, f x = none) (t : Text) :
    (replaceWord w r t).filterMap f = t.filterMap f := by
  obtain ⟨hword, hnew⟩ := List.forall_mem_append.1 hf
  induction t using replace_induction hw with
  | nil => rfl
  | hit rest ih =>
    rw [replaceWord_hit hw, List.filterMap_append, List.filterMap_append, ih,
      List.filterMap_eq_nil_iff.2 hword, List.filterMap_eq_nil_iff.2 hnew]
  | skip c rest hc ih => rw [replaceWord_skip hc, List.filterMap_cons, List.filterMap_cons, ih]

theorem count_replaceWord (hw : w ≠ []) (hc : c ∉ w ++ r) (t : Text) :
    (replaceWord w r t).count c = t.count c := by
  have hcount (t : Text) : t.count c = (t.filterMap (Option.guard (· == c))).length := by
    rw [List.filterMap_eq_filter, List.count, List.countP_eq_length_filter]
  rw [hcount, hcount, filterMap_replaceWord hw]
  intro x hx
  have hne : x ≠ c := fun h => hc (h ▸ hx)
  exact Option.guard_eq_none_iff.2 (beq_false_of_ne hne)

/-- A word begins a text still if only characters are changed that are not of the word. -/
theorem prefix_map_iff {g : Char → Char} (hg : ∀ x ∈ w, ∀ c, g c = x ↔ c = x) (t : Text) :
    w <+: t.map g ↔ w <+: t := by
  induction w generalizing t with
  | nil => simp
  | cons x w ih =>
    obtain ⟨hx, hw⟩ := List.forall_mem_cons.1 hg
    cases t with
    | nil => rfl
    | cons c t =>
      rw [List.map_cons, List.cons_prefix_cons, List.cons_prefix_cons, ih hw, eq_comm, hx c,
        eq_comm]

/-- A word is replaced before or after other characters are changed. -/
theorem map_replaceWord {g : Char → Char} (hw : w ≠ []) (hg : ∀ x ∈ w, ∀ c, g c = x ↔ c = x)
    (hr : r.map g = r) (t : Text) : (replaceWord w r t).map g = replaceWord w r (t.map g) := by
  have hword : w.map g = w :=
    (List.map_congr_left fun x hx => (hg x hx x).2 rfl).trans (List.map_id w)
  induction t using replace_induction hw with
  | nil => rfl
  | hit rest ih =>
    rw [replaceWord_hit hw, List.map_append, List.map_append, hword, replaceWord_hit hw, hr, ih]
  | skip c rest hc ih =>
    have hmap : ¬w <+: g c :: rest.map g := mt (prefix_map_iff hg (c :: rest)).1 hc
    rw [replaceWord_skip hc, List.map_cons, List.map_cons, replaceWord_skip hmap, ih]

end Text

namespace Pattern

/-! ## Matching a word -/

/-- The leaf that takes a character as it is written. -/
def letter (c : Char) : Node := .one (.code c.toNat .exact false)

/-- The pattern that is a word. -/
def literal (w : Text) : Pattern where
  source := w
  root := Node.ofItems (w.map letter)
  groupCount := 0
  names := []

/-- The place behind a text that stands at a place. -/
def Place.past (p : Place) (w : Text) : Place :=
  { p with
    before := w.reverse ++ p.before
    after := p.after.drop w.length
    offset := p.offset + w.length }

theorem matcher_ofItems_cons (subject : Text) (item : Node) (rest : List Node) (k : Continuation)
    (p : Place) : (Node.ofItems (item :: rest)).matcher subject k p =
      item.matcher subject ((Node.ofItems rest).matcher subject k) p := by
  cases rest <;> rfl

theorem accepts_letter (c d : Char) :
    CharTest.accepts d (.code c.toNat .exact false) = decide (c = d) := by
  by_cases h : c = d
  · simp [CharTest.accepts, Folding.agrees, Folding.fold, h]
  · have hne : d.toNat ≠ c.toNat := fun heq => h (Char.toNat_inj.1 heq).symm
    simp [CharTest.accepts, Folding.agrees, Folding.fold, h, hne]

theorem matcher_letter (subject : Text) (c : Char) (k : Continuation) (p : Place) :
    (letter c).matcher subject k p = if [c] <+: p.after then k (p.past [c]) else none := by
  obtain ⟨before, after, offset, marks⟩ := p
  cases after with
  | nil => rfl
  | cons d rest =>
    simp only [letter, Node.matcher, Place.forward?, accepts_letter, List.cons_prefix_cons,
      List.nil_prefix, and_true, decide_eq_true_eq]
    by_cases h : c = d
    · subst h
      rfl
    · rw [if_neg h, if_neg h]

/-- A word is matched where it stands, in one way. -/
theorem matcher_word (subject w : Text) (k : Continuation) (p : Place) :
    (Node.ofItems (w.map letter)).matcher subject k p =
      if w <+: p.after then k (p.past w) else none := by
  induction w generalizing p with
  | nil =>
    rw [if_pos List.nil_prefix]
    rfl
  | cons c w ih =>
    rw [List.map_cons, matcher_ofItems_cons, matcher_letter, ih]
    obtain ⟨before, after, offset, marks⟩ := p
    cases after with
    | nil => rfl
    | cons d rest =>
      by_cases h : c = d
      · subst h
        have hpast : (Place.past ⟨before, c :: rest, offset, marks⟩ [c]).past w =
            Place.past ⟨before, c :: rest, offset, marks⟩ (c :: w) := by
          simp [Place.past, Nat.add_assoc, Nat.add_comm 1]
        rw [if_pos (by simp), hpast]
        simp [Place.past, List.cons_prefix_cons]
      · rw [if_neg (by simp [List.cons_prefix_cons, h]), if_neg (by simp [List.cons_prefix_cons, h])]

variable {w : Text}

/-- A word takes room, so that it counts wherever it is looked for. -/
theorem matchAt?_literal (hw : w ≠ []) (subject : Text) (advancing : Bool) (before after : Text)
    (offset : Nat) : (literal w).matchAt? subject advancing { before, after, offset } =
      if w <+: after then some (⟨offset, offset + w.length, []⟩,
        { before := w.reverse ++ before, after := after.drop w.length, offset := offset + w.length })
      else none := by
  have hpos := List.length_pos_iff.2 hw
  have hne : (offset + w.length == offset) = false := beq_false_of_ne (by omega)
  unfold matchAt? literal
  simp only [matcher_word]
  by_cases h : w <+: after
  · simp [h, Place.past, hne]
  · simp [h]

/-- The search goes to the first occurrence of the word, in front of which nothing is replaced. -/
theorem search?_cases (hw : w ≠ []) (subject r : Text) (advancing : Bool) (after before : Text)
    (offset : Nat) :
    ((literal w).search? subject advancing after before offset = none ∧
      Text.replaceWord w r after = after) ∨
    ∃ u v, after = u ++ (w ++ v) ∧
      (literal w).search? subject advancing after before offset =
        some (⟨offset + u.length, offset + u.length + w.length, []⟩,
          { before := w.reverse ++ (u.reverse ++ before), after := v
            offset := offset + u.length + w.length }) ∧
      Text.replaceWord w r after = u ++ (r ++ Text.replaceWord w r v) := by
  induction after generalizing before offset advancing with
  | nil =>
    refine .inl ⟨?_, rfl⟩
    rw [search?, matchAt?_literal hw, if_neg (fun h => hw (List.prefix_nil.1 h))]
  | cons c rest ih =>
    have hopens : (literal w).opensAt c = true := rfl
    rw [search?, hopens, if_pos rfl, matchAt?_literal hw]
    by_cases h : w <+: c :: rest
    · obtain ⟨v, hv⟩ := h
      refine .inr ⟨[], v, hv.symm, ?_, ?_⟩
      · rw [if_pos ⟨v, hv⟩, ← hv, List.drop_left]
        rfl
      · rw [← hv, Text.replaceWord_hit hw]
        rfl
    · rw [if_neg h, Option.none_or, Text.replaceWord_skip h]
      rcases ih false (c :: before) (offset + 1) with ⟨hnone, hsame⟩ | ⟨u, v, hsplit, hsome, hreplace⟩
      · exact .inl ⟨hnone, by rw [hsame]⟩
      · have hoffset : offset + 1 + u.length = offset + (c :: u).length := by
          rw [List.length_cons]
          omega
        refine .inr ⟨c :: u, v, by rw [hsplit]; rfl, ?_, by rw [hreplace]; rfl⟩
        rw [hsome, hoffset, List.reverse_cons, List.append_assoc, List.singleton_append]

/-! ## Reading a word -/

/-- The characters that mean something in a pattern. -/
def special : Text := ['\\', '[', '?', '*', '+', '\x7b', '.', '(', '^', '$', '|', ')']

/-- A word that means itself. -/
def Ordinary (w : Text) : Prop := ∀ c ∈ w, c ∉ special

theorem Ordinary.notMem (hw : Ordinary w) : '\\' ∉ w := fun h => hw _ h (by decide)

/-- A reader between two parts of a text without backslashes. -/
def between (done rest : Text) : Cursor where
  source := done ++ rest
  rest := rest.map .plain
  position := done.length

section Between

variable {σ : Type}

theorem checkNext_between (done rest : Text) (s : σ) :
    (ReadM.checkNext : ReadM σ Unit) (between done rest, s) = .ok () (between done rest, s) := by
  cases rest <;> rfl

theorem peek_between (done rest : Text) (s : σ) : (ReadM.peek : ReadM σ _) (between done rest, s) =
    .ok (rest.head?.map .plain) (between done rest, s) := by
  cases rest <;> rfl

theorem advance_nil (done : Text) (s : σ) : (ReadM.advance : ReadM σ _) (between done [], s) =
    .ok none (between done [], s) := rfl

theorem advance_cons (done : Text) (c : Char) (rest : Text) (s : σ) :
    (ReadM.advance : ReadM σ _) (between done (c :: rest), s) =
      .ok (some (.plain c)) (between (done ++ [c]) rest, s) := by
  have hmoved : between (done ++ [c]) rest =
      { between done (c :: rest) with
        rest := rest.map .plain, position := done.length + 1 } := by
    simp [between]
  rw [hmoved]
  cases rest <;> rfl

end Between

namespace Read

/-- What is kept of a word that has been read. -/
def drafted (done : Text) : Draft where
  frame := {
    opening := .whole
    start := 0
    flags := {}
    items := (done.map fun c => .solid (letter c)).reverse }

theorem item_ordinary {c : Char} (hc : c ∉ special) (cursor : Cursor) (done : Text) :
    item (.plain c) (cursor, drafted done) = .ok () (cursor, drafted (done ++ [c])) := by
  unfold item
  rw [bind_of_ok (show flags (cursor, drafted done) = .ok {} _ from rfl)]
  simp only [Bool.false_and, Bool.false_eq_true, if_false]
  rw [bind_of_ok (show ReadM.tell (cursor, drafted done) = .ok cursor.position _ from rfl)]
  split
  case h_10 =>
    unfold drafted
    rw [List.map_append, List.reverse_append]
    rfl
  all_goals exact absurd (by decide) hc

theorem items_ordinary {rest : Text} (h : Ordinary rest) (done : Text) {n : Nat}
    (hn : rest.length < n) : items n (between done rest, drafted done) =
      .ok () (between (done ++ rest) [], drafted (done ++ rest)) := by
  induction n generalizing done rest with
  | zero => cases hn
  | succ n ih =>
    unfold items
    rw [bind_of_ok (show draft (between done rest, drafted done) = .ok (drafted done) _ from rfl),
      bind_of_ok (peek_between done rest _)]
    cases rest with
    | nil =>
      rw [List.append_nil]
      rfl
    | cons c rest =>
      obtain ⟨hc, hrest⟩ := List.forall_mem_cons.1 h
      rw [List.head?_cons, Option.map_some]
      generalize hnext : some (Piece.plain c) = next
      split
      · cases hnext
      · cases hnext
        exact absurd (by decide) hc
      · cases hnext
        exact absurd (by decide) hc
      · cases hnext
        rw [bind_of_ok (advance_cons done c rest _), bind_of_ok (item_ordinary hc _ done),
          ih hrest (done ++ [c]) (Nat.lt_of_succ_lt_succ hn)]
        simp only [List.append_assoc, List.singleton_append]

/-- Nothing is wrong with the tree of a word. -/
theorem treeProblem?_word (w : Text) :
    treeProblem? false (Node.ofItems (w.map letter)) = none := by
  induction w with
  | nil => rfl
  | cons c w ih =>
    cases w with
    | nil => rfl
    | cons d w => exact ih

theorem whole_ordinary (hw : Ordinary w) :
    ∃ s, whole (between [] w, drafted []) = .ok (literal w) s := by
  have hitems : items (w.length + 1) (between [] w, drafted []) =
      .ok () (between w [], drafted w) := items_ordinary hw [] (Nat.lt_succ_self _)
  have hlength : (between [] w).rest.length = w.length := List.length_map _
  have hcurrent : (drafted w).frame.alternatives = [w.map letter] := by
    rw [Frame.alternatives, Frame.current, drafted, List.reverse_reverse, List.flatMap_map]
    exact congrArg (fun items => [items]) List.map_eq_flatMap.symm
  have hopening : (Node.ofItems (w.map letter)).opening? false = none := by
    cases w with
    | nil => rfl
    | cons c w => cases w <;> rfl
  refine ⟨(between w [], drafted w), ?_⟩
  unfold whole
  refine (bind_of_ok rfl).trans ((bind_of_ok (checkNext_between [] w _)).trans ?_)
  refine (bind_of_ok rfl).trans ?_
  simp only [hlength]
  refine (bind_of_ok hitems).trans ((bind_of_ok rfl).trans ?_)
  refine (bind_of_ok (peek_between w [] _)).trans ?_
  have hjoin : join [w.map letter] = Node.ofItems (w.map letter) := rfl
  have hflags : (drafted w).flags = {} := rfl
  have hconditions : (drafted w).conditions = [] := rfl
  simp only [hcurrent, hjoin, hflags, hconditions, hopening, treeProblem?_word, List.head?_nil,
    Option.map_none, Option.isSome_none, Bool.false_eq_true, List.find?_nil]
  rfl

end Read

/-- A word is read as the sequence of its characters. -/
theorem ofText_literal (hw : Ordinary w) : Pattern.ofText w = .ok (literal w) := by
  obtain ⟨s, hs⟩ := Read.whole_ordinary hw
  have hcursor : { source := w, rest := Piece.ofText w : Cursor } = between [] w := by
    rw [Piece.ofText_of_notMem hw.notMem]
    rfl
  unfold Pattern.ofText
  simp only [hcursor, EStateM.run]
  have hdraft : ({ frame := { opening := .whole, start := 0, flags := {} } } : Draft) =
      Read.drafted [] := rfl
  rw [hdraft, hs]

/-! ## Replacing the matches of a word -/

namespace Template

/-- The template that is a text. -/
def plain (r : Text) : Template := r.map fun c => .text [c]

theorem expand_plain (r subject : Text) (m : Match) : (plain r).expand subject m = r := by
  rw [expand, plain, List.flatMap_map]
  exact List.flatMap_singleton' r

theorem parts_between (pattern : Pattern) (done rest : Text) {n : Nat} (hn : rest.length < n) :
    parts n (between done rest, pattern) = .ok (plain rest) (between (done ++ rest) [], pattern) := by
  induction n generalizing done rest with
  | zero => cases hn
  | succ n ih =>
    cases rest with
    | nil =>
      rw [List.append_nil]
      exact bind_of_ok (advance_nil done pattern)
    | cons c rest =>
      refine (bind_of_ok (advance_cons done c rest pattern)).trans ?_
      refine (bind_of_ok (ih (done ++ [c]) rest (Nat.lt_of_succ_lt_succ hn))).trans ?_
      rw [List.append_assoc]
      rfl

/-- A text without backslashes is read as a template that is this text. -/
theorem ofText_plain (pattern : Pattern) {r : Text} (hr : '\\' ∉ r) :
    ofText pattern r = .ok (plain r) := by
  have hcursor : { source := r, rest := r.map .plain : Cursor } = between [] r := rfl
  have hparts : (do ReadM.checkNext; parts (r.length + 1) : Read Template).run
      (between [] r, pattern) = .ok (plain r) (between r [], pattern) :=
    (bind_of_ok (checkNext_between [] r pattern)).trans
      (parts_between pattern [] r (Nat.lt_succ_self _))
  unfold ofText
  simp only [Piece.ofText_of_notMem hr, hcursor, List.length_map, hparts]

end Template

/-- From a place on, every occurrence of the word is replaced. -/
theorem replaceFrom_literal (hw : w ≠ []) (r : Text) {subject before after : Text} {fuel : Nat}
    (hfuel : after.length ≤ fuel) (advancing : Bool) (hsubject : subject = before.reverse ++ after) :
    replaceFrom (Template.plain r) subject before.length
      ((literal w).matchesFrom subject fuel advancing
        { before, after, offset := before.length }) = Text.replaceWord w r after := by
  have hdrop : subject.drop before.length = after := by
    rw [hsubject, List.drop_left' List.length_reverse]
  induction fuel generalizing advancing before after with
  | zero =>
    obtain rfl := List.length_eq_zero_iff.1 (Nat.le_zero.1 hfuel)
    rw [matchesFrom, replaceFrom, hdrop, Text.replaceWord_nil]
  | succ fuel ih =>
    rw [matchesFrom]
    rcases search?_cases hw subject r advancing after before before.length with
      ⟨hnone, hsame⟩ | ⟨u, v, rfl, hsome, hreplace⟩
    · simp only [hnone]
      rw [replaceFrom, hdrop, hsame]
    · have hlength : before.length + u.length + w.length =
          (w.reverse ++ (u.reverse ++ before)).length := by
        simp only [List.length_append, List.length_reverse]
        omega
      have hbehind : v.length ≤ fuel := by
        have hpos := List.length_pos_iff.2 hw
        simp only [List.length_append] at hfuel
        omega
      have hwhole : subject = (w.reverse ++ (u.reverse ++ before)).reverse ++ v := by
        simp [hsubject]
      have hkept : subject.slice before.length (before.length + u.length) = u := by
        rw [Text.slice, List.drop_take, hdrop, Nat.add_sub_cancel_left, List.take_left]
      simp only [hsome]
      rw [replaceFrom, hkept, Template.expand_plain, hreplace, hlength,
        ih hbehind _ hwhole (by rw [hwhole, List.drop_left' List.length_reverse])]
      simp only [List.append_assoc]

/-- Replacing the matches of a word is replacing the word. -/
theorem replaceAll_literal (hw : w ≠ []) {r : Text} (hr : '\\' ∉ r) (t : Text) :
    (literal w).replaceAll r t = .ok (Text.replaceWord w r t) := by
  have hfuel : t.length ≤ 2 * t.length + 2 := by omega
  have hstart : t = ([] : Text).reverse ++ t := rfl
  unfold replaceAll
  rw [Template.ofText_plain _ hr]
  exact congrArg Except.ok (replaceFrom_literal hw r hfuel false hstart)

end Pattern

end Bracemark
