import Bracemark.Proofs.NormalForm
import Bracemark.Proofs.Sites

/-!
# Boundaries

Where two texts meet, a keyword may grow together and a block may reach across. Neither happens
if the second text goes on with no word and every directive of the first one has its blocks: the
stretches of the whole are those of the parts (`Stretch.ofText_append`), and so they are at a
character that is no part of a word, such as a line break (`Stretch.ofText_append_cons`). If the
braces in front match, a directive that lacks a block there still lacks it in the whole, unless an
opening brace comes next (`Stretch.fault_append_cons`).

Protection sees no further than one character, so it can be done part by part
(`Scheme.protect_append_cons`).
-/

namespace Bracemark

/-! ## Keywords -/

namespace Text

variable {b : Char} {s u v : Text}

/-- A text that goes on with no word in front of it. -/
def Apart (t : Text) : Prop := ∀ c ∈ t.head?, isWord c = false

theorem Apart.takeWhile_append (hv : v.Apart) (t : Text) :
    (t ++ v).takeWhile isWord = t.takeWhile isWord := by
  cases v with
  | nil => rw [List.append_nil]
  | cons b v => exact takeWhile_append_cons (hv b rfl) t v

/-- A keyword ends in front of a text that goes on with no word. -/
theorem Apart.directive?_append (hv : v.Apart) (c : Char) (rest : Text) :
    directive? (c :: (rest ++ v)) = directive? (c :: rest) := by
  by_cases hc : c = '.'
  · subst hc
    rw [directive?_stop, directive?_stop, hv.takeWhile_append]
  · rw [directive?_of_ne hc, directive?_of_ne hc]

/-- A keyword is read in front of a text that goes on with no word. -/
theorem Apart.directive?_keyword (hv : v.Apart) (d : Directive) :
    directive? ('.' :: (d.name.toList ++ v)) = some d := by
  rw [directive?_stop, hv.takeWhile_append, d.takeWhile_name, Directive.ofName?_name]

theorem apart_of_directive? {d : Directive}
    (h : directive? ('.' :: (d.name.toList ++ v)) = some d) : v.Apart := by
  obtain ⟨-, hname, -⟩ := eq_of_directive? h
  rw [List.takeWhile_append_of_pos fun c => d.isWord_of_mem_name,
    List.append_right_eq_self] at hname
  intro c hc
  cases v with
  | nil => cases hc
  | cons b v =>
    obtain rfl : b = c := Option.some.inj hc
    cases hb : isWord b with
    | false => rfl
    | true =>
      rw [List.takeWhile_cons_of_pos hb] at hname
      cases hname

/-- A character in front of which every keyword ends, and at which none begins. -/
structure IsBoundary (b : Char) : Prop where
  not_word : isWord b = false
  ne_stop : b ≠ '.'

theorem IsBoundary.apart (hb : IsBoundary b) (t : Text) : Apart (b :: t) := by
  intro c hc
  cases hc
  exact hb.not_word

theorem isBoundary_newline : IsBoundary '\n' := ⟨rfl, by decide⟩

theorem isBoundary_closing : IsBoundary '\x7d' := ⟨rfl, by decide⟩

/-- A keyword is read as at the end of a text in front of a character that is no part of it. -/
theorem directive?_append_cons (hb : IsBoundary b) (s post : Text) :
    directive? (s ++ b :: post) = directive? s := by
  cases s with
  | nil => exact directive?_of_ne hb.ne_stop post
  | cons c rest => exact (hb.apart post).directive?_append c rest

/-- Blocks go on with no word: a blank or a brace comes first. -/
theorem Spaced.apart {us : List Text} {w : Text} (h : Spaced us w) (hus : us ≠ []) (post : Text) :
    Apart (w ++ post) := by
  cases h with
  | nil => exact absurd rfl hus
  | @cons gap u rest us hgap _ _ =>
    intro c hc
    cases gap with
    | nil =>
      cases hc
      rfl
    | cons x gap =>
      cases hc
      exact isWord_of_isBlank (hgap c List.mem_cons_self)

theorem suffix_append_cons_iff {s' : Text} : s' <:+ u ++ b :: v ↔
    (∃ s, s <:+ u ∧ s' = s ++ b :: v) ∨ s' <:+ v := by
  induction u with
  | nil =>
    rw [List.nil_append, List.suffix_cons_iff]
    simp only [List.suffix_nil, exists_eq_left, List.nil_append]
  | cons c u ih =>
    rw [List.cons_append, List.suffix_cons_iff, ih]
    constructor
    · rintro (rfl | ⟨s, hs, rfl⟩ | h)
      · exact .inl ⟨c :: u, List.suffix_rfl, rfl⟩
      · exact .inl ⟨s, hs.trans (List.suffix_cons c u), rfl⟩
      · exact .inr h
    · rintro (⟨s, hs, rfl⟩ | h)
      · rcases List.suffix_cons_iff.1 hs with rfl | hs
        · exact .inl rfl
        · exact .inr (.inl ⟨s, hs, rfl⟩)
      · exact .inr (.inr h)

theorem hasDirective_append_cons (hb : IsBoundary b) (u v : Text) :
    hasDirective (u ++ b :: v) = (hasDirective u || hasDirective v) := by
  rw [Bool.eq_iff_iff, Bool.or_eq_true, hasDirective_iff, hasDirective_iff, hasDirective_iff]
  constructor
  · rintro ⟨s, hs, hd⟩
    rcases suffix_append_cons_iff.1 hs with ⟨s', hs', rfl⟩ | hs
    · rw [directive?_append_cons hb] at hd
      exact .inl ⟨s', hs', hd⟩
    · exact .inr ⟨s, hs, hd⟩
  · rintro (⟨s, hs, hd⟩ | ⟨s, hs, hd⟩)
    · refine ⟨s ++ b :: v, suffix_append_cons_iff.2 (.inl ⟨s, hs, rfl⟩), ?_⟩
      rwa [directive?_append_cons hb]
    · exact ⟨s, suffix_append_cons_iff.2 (.inr hs), hd⟩

/-- No keyword of a family begins in the text. -/
def Lacks (t : Text) (f : Family) : Prop :=
  ∀ s d, s <:+ t → directive? s = some d → d.family ≠ f

theorem Lacks.suffix {f : Family} (h : u.Lacks f) (hs : s <:+ u) : s.Lacks f :=
  fun s' d hs' hd => h s' d (hs'.trans hs) hd

/-- The keywords of two texts with a boundary between them are those of each. -/
theorem Lacks.append_cons {f : Family} (hb : IsBoundary b)
    (hu : u.Lacks f) (hv : v.Lacks f) : (u ++ b :: v).Lacks f := by
  intro s d hs hd
  rcases suffix_append_cons_iff.1 hs with ⟨s', hs', rfl⟩ | hs'
  · rw [directive?_append_cons hb] at hd
    exact hu s' d hs' hd
  · exact hv s d hs' hd

theorem lacks_nil (f : Family) : Lacks [] f := by
  intro s d hs hd
  rw [List.suffix_nil.1 hs] at hd
  cases hd

theorem lacks_cons_iff {f : Family} {c : Char} :
    Lacks (c :: u) f ↔ (∀ d ∈ directive? (c :: u), d.family ≠ f) ∧ u.Lacks f := by
  constructor
  · intro h
    exact ⟨fun d hd => h _ d List.suffix_rfl hd, h.suffix (List.suffix_cons c u)⟩
  · rintro ⟨hhead, hrest⟩ s d hs hd
    rcases List.suffix_cons_iff.1 hs with rfl | hs
    · exact hhead d hd
    · exact hrest s d hs hd

instance decidableLacks (f : Family) : (t : Text) → Decidable (t.Lacks f)
  | [] => isTrue (lacks_nil f)
  | _ :: rest =>
    have := decidableLacks f rest
    decidable_of_iff _ lacks_cons_iff.symm

theorem lacks_of_hasDirective (h : u.hasDirective = false) (f : Family) : u.Lacks f := by
  intro s d hs hd
  have : u.hasDirective = true := hasDirective_iff.2 ⟨s, hs, by rw [hd]; rfl⟩
  rw [h] at this
  cases this

/-! ## Blocks -/

variable {lexer : Lexer} {keyword t i a post : Text} {n offset : Nat}

/-- A block that has been read is read whatever stands behind. -/
theorem readBlock_append (h : readBlock lexer keyword offset t = .ok (i, a)) (post : Text) :
    readBlock lexer keyword offset (t ++ post) = .ok (i, a ++ post) := by
  obtain ⟨rest, hdrop, hclosing⟩ := closing_of_readBlock h
  obtain ⟨rfl, hnested⟩ := eq_of_closing hclosing
  have hdrop' : (t ++ post).dropWhile isBlank = '\x7b' :: (i ++ '\x7d' :: (a ++ post)) := by
    rw [List.dropWhile_append, hdrop]
    simp only [List.isEmpty_cons, Bool.false_eq_true, if_false, List.cons_append,
      List.append_assoc]
  unfold readBlock
  rw [hdrop']
  simp only [if_true, closing_of_nested hnested]

theorem readBlocks_append {is : List Text} (h : readBlocks lexer keyword n offset t = .ok (is, a))
    (post : Text) : readBlocks lexer keyword n offset (t ++ post) = .ok (is, a ++ post) := by
  induction n generalizing offset t is with
  | zero =>
    cases h
    rfl
  | succ n ih =>
    rw [readBlocks] at h ⊢
    split at h
    · cases h
    rename_i first behind hfirst
    split at h
    · cases h
    rename_i others after hothers
    cases h
    -- the length of what the first block takes is the same on both sides
    have hplace : (t ++ post).length - (behind ++ post).length = t.length - behind.length := by
      simp only [List.length_append]
      omega
    simp only [readBlock_append hfirst, hplace, ih hothers]

/-- A text that does not begin with a block, behind its blanks. -/
def Blocked (t : Text) : Prop := ∀ rest, t.dropWhile isBlank ≠ '\x7b' :: rest

/-- A block that cannot be read in a text that closes what is open cannot be read in front of a
text without a block either. -/
theorem readBlock_error_append (ht : t.Closes) (hpost : post.Blocked) {f : BlockFault}
    (h : readBlock lexer keyword offset t = .error f) :
    ∃ f', readBlock lexer keyword offset (t ++ post) = .error f' := by
  cases hread : readBlock lexer keyword offset (t ++ post) with
  | error f' => exact ⟨f', rfl⟩
  | ok read =>
    obtain ⟨i, a⟩ := read
    obtain ⟨rest, hdrop, hclosing⟩ := closing_of_readBlock hread
    rw [List.dropWhile_append] at hdrop
    split at hdrop
    · exact absurd hdrop (hpost rest)
    · -- the opening brace stands in `t`, so its block is left open there
      rename_i hempty
      exfalso
      cases hd : t.dropWhile isBlank with
      | nil =>
        rw [hd] at hempty
        exact hempty rfl
      | cons c rest' =>
        rw [hd, List.cons_append] at hdrop
        obtain ⟨rfl, -⟩ := List.cons.inj hdrop
        have hproblem := problem_of_readBlock ht h keyword
        unfold readBlock at h
        rw [hd] at h
        simp only [if_true] at h
        split at h
        · cases h
        · cases h
          exact hproblem rfl

theorem readBlocks_error_append (ht : t.Closes) (hpost : post.Blocked) {f : BlockFault}
    (h : readBlocks lexer keyword n offset t = .error f) :
    ∃ f', readBlocks lexer keyword n offset (t ++ post) = .error f' := by
  induction n generalizing offset t with
  | zero => cases h
  | succ n ih =>
    rw [readBlocks] at h ⊢
    split at h
    · rename_i hfirst
      cases h
      obtain ⟨f', hf'⟩ := readBlock_error_append ht hpost hfirst
      exact ⟨f', by simp only [hf']⟩
    · rename_i first behind hfirst
      split at h
      · rename_i hothers
        cases h
        obtain ⟨f', hf'⟩ := ih (ht.suffix (suffix_of_readBlock hfirst)) hothers
        have hplace : (t ++ post).length - (behind ++ post).length =
            t.length - behind.length := by
          simp only [List.length_append]
          omega
        exact ⟨f', by simp only [readBlock_append hfirst, hplace, hf']⟩
      · cases h

end Text

/-! ## Stretches -/

namespace Stretch

variable {family : Family} {b : Char} {u v : Text}

theorem length_name_le {c : Char} {rest : Text} {d : Directive}
    (h : Text.directive? (c :: rest) = some d) : d.name.length ≤ rest.length := by
  obtain ⟨-, hname, -⟩ := Text.eq_of_directive? h
  rw [← String.length_toList, ← hname]
  exact (List.takeWhile_prefix isWord).length_le

namespace Shaped

variable {d : Directive} {us : List Text} {w : Text}

theorem directive?_eq (h : Shaped d us w) (post : Text) :
    Text.directive? (w ++ post) = some d := by
  obtain ⟨blocks, hblocks, rfl⟩ := h.blocks
  rw [List.cons_append, List.append_assoc]
  exact (hblocks.apart h.ne_nil post).directive?_keyword d

end Shaped

/-- What is found at a character is found there whatever the next text is that goes on with no
word. -/
theorem step_append (hv : v.Apart) {c : Char} {rest : Text}
    (h : ∀ f, (step family c rest).1 ≠ .fault f) :
    step family c (rest ++ v) = step family c rest ∧
      (step family c rest).2 ≤ rest.length := by
  unfold step at h ⊢
  rw [hv.directive?_append]
  cases hd : Text.directive? (c :: rest) with
  | none => exact ⟨rfl, Nat.zero_le _⟩
  | some d =>
    simp only [hd] at h ⊢
    by_cases hfamily : d.family = family
    case neg =>
      simp only [if_neg hfamily]
      exact ⟨trivial, Nat.zero_le _⟩
    simp only [if_pos hfamily] at h ⊢
    rw [List.drop_append_of_le_length (length_name_le hd)]
    cases hread : Text.readBlocks Lexer.directive ('.' :: d.name.toList) d.arity
        (d.name.length + 1) (rest.drop d.name.length) with
    | error f =>
      rw [hread] at h
      exact absurd rfl (h f)
    | ok read =>
      obtain ⟨arguments, after⟩ := read
      have hsuffix := (Text.suffix_of_readBlocks hread).trans (List.drop_suffix _ rest)
      have hmore : (rest ++ v).length - (after ++ v).length = rest.length - after.length := by
        simp only [List.length_append]
        omega
      simp only [Text.readBlocks_append hread, hmore]
      rw [List.take_append_of_le_length (by omega)]
      refine ⟨rfl, ?_⟩
      split
      · exact Nat.zero_le _
      · exact Nat.sub_le _ _

/-- Every directive of a family that a scan comes to has its blocks. -/
def Sound (family : Family) (t : Text) : Prop := ∀ f, .fault f ∉ ofText family t

theorem sound_cons_iff {c : Char} {rest : Text} : Sound family (c :: rest) ↔
    (∀ f, (step family c rest).1 ≠ .fault f) ∧ Sound family (rest.drop (step family c rest).2) := by
  unfold Sound
  rw [ofText, segment_zero_cons, ← ofText]
  simp only [List.mem_cons, not_or, forall_and]
  exact and_congr_left fun _ => forall_congr' fun f => ne_comm

/-- The stretches of a sound text, and of one behind it that goes on with no word. -/
theorem ofText_append (hv : v.Apart) (hu : Sound family u) :
    ofText family (u ++ v) = ofText family u ++ ofText family v := by
  induction u using segment_induction (step family) with
  | nil => rfl
  | cons c rest ih =>
    obtain ⟨hhead, hrest⟩ := sound_cons_iff.1 hu
    obtain ⟨hstep, hle⟩ := step_append hv hhead
    have hwhole : ofText family (c :: rest ++ v) = (step family c rest).1 ::
        ofText family (rest.drop (step family c rest).2 ++ v) := by
      rw [List.cons_append, ofText, segment_zero_cons, hstep, List.drop_append_of_le_length hle]
      rfl
    rw [hwhole, ih hrest]
    exact congrArg (· ++ _) (segment_zero_cons ..).symm

/-- The stretches of a sound text, and of what stands behind the boundary. -/
theorem ofText_append_cons (hb : Text.IsBoundary b) (hu : Sound family u)
    (v : Text) : ofText family (u ++ b :: v) = ofText family u ++ .kept b :: ofText family v := by
  have hkept : ofText family (b :: v) = .kept b :: ofText family v := by
    rw [ofText, segment_zero_cons, step_of_none (Text.directive?_of_ne hb.ne_stop v)]
    rfl
  rw [ofText_append (hb.apart v) hu, hkept]

theorem sound_append_cons_iff (hb : Text.IsBoundary b) (hu : Sound family u) :
    Sound family (u ++ b :: v) ↔ Sound family v := by
  unfold Sound
  simp only [ofText_append_cons hb hu, List.mem_append, List.mem_cons, not_or, reduceCtorEq,
    not_false_eq_true, true_and]
  exact ⟨fun h f => (h f).2, fun h f => ⟨hu f, h f⟩⟩

/-- A directive without its blocks lacks them still if something else comes next, as long as no
block is left open in front. -/
theorem fault_append_cons (hb : Text.IsBoundary b) {c : Char} {rest : Text}
    (hrest : rest.Closes) (hpost : Text.Blocked (b :: v)) {f : BlockFault}
    (h : (step family c rest).1 = .fault f) :
    ∃ f', (step family c (rest ++ b :: v)).1 = .fault f' := by
  unfold step at h ⊢
  rw [← List.cons_append, Text.directive?_append_cons hb]
  cases hd : Text.directive? (c :: rest) with
  | none =>
    rw [hd] at h
    cases h
  | some d =>
    rw [hd] at h
    simp only at h ⊢
    by_cases hfamily : d.family = family
    case neg =>
      rw [if_neg hfamily] at h
      cases h
    rw [if_pos hfamily] at h ⊢
    rw [List.drop_append_of_le_length (length_name_le hd)]
    split at h
    · rename_i hread
      obtain ⟨f', hf'⟩ := Text.readBlocks_error_append (hrest.suffix (List.drop_suffix _ rest))
        hpost hread
      exact ⟨f', by rw [hf']⟩
    · split at h <;> cases h

theorem sound_of_append_cons (hb : Text.IsBoundary b) (hu : u.Closes)
    (hpost : Text.Blocked (b :: v)) (h : Sound family (u ++ b :: v)) : Sound family u := by
  induction u using segment_induction (step family) with
  | nil => exact fun f => List.not_mem_nil
  | cons c rest ih =>
    have hrest := hu.suffix (List.suffix_cons c rest)
    rw [List.cons_append] at h
    obtain ⟨hwhole, hbehind⟩ := sound_cons_iff.1 h
    have hhead : ∀ f, (step family c rest).1 ≠ .fault f := by
      intro f hf
      obtain ⟨f', hf'⟩ := fault_append_cons hb hrest hpost hf
      exact hwhole f' hf'
    obtain ⟨hstep, hle⟩ := step_append (hb.apart v) hhead
    rw [hstep, List.drop_append_of_le_length hle] at hbehind
    exact sound_cons_iff.2 ⟨hhead, ih (hrest.suffix (List.drop_suffix _ rest)) hbehind⟩

theorem step_of_lacks {c : Char} {rest : Text} (h : Text.Lacks (c :: rest) family) :
    step family c rest = (.kept c, 0) := by
  unfold step
  cases hd : Text.directive? (c :: rest) with
  | none => rfl
  | some d => exact if_neg (h _ d List.suffix_rfl hd)

/-- A text without the keywords of a family is kept. -/
theorem ofText_of_lacks (hu : u.Lacks family) : ofText family u = u.map .kept := by
  induction u with
  | nil => rfl
  | cons c rest ih =>
    rw [ofText, segment_zero_cons, step_of_lacks hu, List.drop_zero, ← ofText,
      ih (hu.suffix (List.suffix_cons c rest))]
    rfl

theorem cuts_of_lacks (hb : Text.IsBoundary b) (hu : u.Lacks family) :
    Cuts (step family) (u ++ [b]) ((u ++ [b]).map .kept) := by
  intro post
  have hsound : Sound family u := by
    intro f
    rw [ofText_of_lacks hu]
    simp
  have hcut := ofText_append_cons hb hsound post
  rw [ofText_of_lacks hu] at hcut
  rw [List.append_assoc, List.singleton_append, List.map_append, List.append_assoc]
  exact hcut

/-- In a text without braces no directive has its blocks. -/
theorem lacks_of_sound (hu : ∀ x ∈ u, isBrace x = false) (h : Sound family u) :
    u.Lacks family := by
  induction u with
  | nil => exact Text.lacks_nil family
  | cons c rest ih =>
    have hrest : ∀ x ∈ rest, isBrace x = false := fun x hx => hu x (List.mem_cons_of_mem c hx)
    have hkept : ∀ d, Text.directive? (c :: rest) = some d → d.family ≠ family := by
      intro d hd hfamily
      cases hread : Text.readBlocks Lexer.directive ('.' :: d.name.toList) d.arity
          (d.name.length + 1) (rest.drop d.name.length) with
      | error f =>
        refine (sound_cons_iff.1 h).1 f ?_
        unfold step
        simp only [hd, if_pos hfamily, hread]
      | ok read =>
        obtain ⟨is, after⟩ := read
        obtain ⟨hlength, w, hw, hdrop⟩ := Text.spaced_of_readBlocks hread
        cases hw with
        | nil => cases d <;> cases hlength
        | cons =>
          have hmem : '\x7b' ∈ rest := by
            refine List.mem_of_mem_drop (i := d.name.length) ?_
            rw [hdrop]
            simp only [List.mem_append, List.mem_cons, true_or, or_true]
          cases hrest _ hmem
    have hstep : step family c rest = (.kept c, 0) := by
      unfold step
      cases hd : Text.directive? (c :: rest) with
      | none => rfl
      | some d => exact if_neg (hkept d hd)
    have hlacks := (sound_cons_iff.1 h).2
    rw [hstep, List.drop_zero] at hlacks
    exact Text.lacks_cons_iff.2 ⟨hkept, ih hrest hlacks⟩

end Stretch

/-- A text without the keywords of a family is kept up to a boundary. -/
theorem Rewrites.of_lacks {ctx : Context} {f : Family} {b : Char} {u : Text}
    (hb : Text.IsBoundary b) (h : u.Lacks f) : Rewrites ctx f (u ++ [b]) (u ++ [b]) := by
  refine ⟨_, Stretch.cuts_of_lacks hb h, fun buffer start => ?_⟩
  rw [Stretch.resolve_map_kept]
  exact .pure _

/-! ## Protection -/

namespace Scheme

variable {b : Char} {t u v : Text}

/-- What protection accepts, it accepts up to a character that cannot be escaped and behind it. -/
theorem fault?_append_cons_iff (hb : document.tag? b = none) :
    document.fault? (u ++ b :: v) = none ↔
      document.fault? u = none ∧ document.fault? v = none := by
  induction u using Piece.piece_induction with
  | nil =>
    have hbreak : b ≠ '\\' := by
      rintro rfl
      cases hb
    rw [List.nil_append, fault?_plain hbreak]
    exact (and_iff_right rfl).symm
  | dangling =>
    -- the backslash would escape the boundary
    rw [List.singleton_append, fault?_pair, hb]
    exact iff_of_false (fun h => nomatch h.1) fun h => nomatch h.1
  | plain c t hc ih => rw [List.cons_append, fault?_plain hc, fault?_plain hc, ih]
  | pair c t ih =>
    rw [List.cons_append, List.cons_append, fault?_pair, fault?_pair, ih, and_assoc]

/-- What two texts become under protection they become one above the other. -/
theorem protect_append_cons (hu : document.fault? u = none) (hv : document.fault? v = none) :
    document.protect (u ++ '\n' :: v) = document.protect u ++ '\n' :: document.protect v := by
  have hbreak : Protects ['\n'] ['\n'] := .of_notMem (by decide)
  exact ((protects_of_fault? hu).append (hbreak.append (protects_of_fault? hv))).protect_eq

end Scheme

theorem Text.braces_append_cons (u v : Text) :
    braces (u ++ '\n' :: v) = (u.braces.1 + v.braces.1, u.braces.2 + v.braces.2) := by
  simp only [braces, List.count_append, List.count_cons_of_ne, ne_eq, Char.reduceEq,
    not_false_eq_true]

end Bracemark
