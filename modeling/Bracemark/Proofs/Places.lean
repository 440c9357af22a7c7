import Bracemark.Proofs.Codes
import Bracemark.Proofs.Stretches

/-!
# Places in a source

What is read of a source is its protected text, and offsets count the characters of that text, where
every escape pair has grown to a code. A place of a source is a cut of it that goes through no
escape pair, with the offset that the cut has in the protected text (`Text.Place`). In front of a
place the two texts have the same number of line feeds, so a place is in the same line of both
(`Place.lineAt_eq`).

Not every offset is that of a place: most of those in a code are not. But a character that no code
holds behind its first one is at a place (`Place.seek`), and plain text behind a place leads to the
next one (`Place.advance`). Keywords, braces, tags and the tokens behind them are found that way.
-/

namespace Bracemark

namespace Scheme

variable {t v w x y : Text} {c : Char} {g : Tag}

/-! ## Protection piece by piece -/

theorem protects_plain (hc : c ≠ '\\') : Protects [c] [c] :=
  .of_notMem (by simpa using hc.symm)

theorem protects_pair (hg : document.tag? c = some g) : Protects ['\\', c] g.code := by
  refine ⟨[.escaped c], Piece.cuts_escaped c, ?_, ?_⟩
  · simp [Knows, hg]
  · simp [protectPiece, hg]

/-- Induction along the pieces of a text that protection accepts. -/
@[elab_as_elim]
theorem accepted_induction {motive : (t : Text) → document.fault? t = none → Prop}
    (nil : motive [] rfl)
    (plain : ∀ (c : Char) (t : Text) (hc : c ≠ '\\') (h : document.fault? t = none),
      motive t h → motive (c :: t) ((fault?_plain hc t).2 h))
    (pair : ∀ (c : Char) (g : Tag) (t : Text) (hg : document.tag? c = some g)
      (h : document.fault? t = none), motive t h →
      motive ('\\' :: c :: t) ((fault?_pair c t).2 ⟨by rw [hg]; rfl, h⟩)) :
    ∀ (t : Text) (h : document.fault? t = none), motive t h := by
  intro t
  induction t using Piece.piece_induction with
  | nil => exact fun _ => nil
  | dangling => exact nofun
  | plain c t hc ih => exact fun h => plain c t hc _ (ih ((fault?_plain hc t).1 h))
  | pair c t ih =>
    intro h
    obtain ⟨hknown, ht⟩ := (fault?_pair c t).1 h
    obtain ⟨g, hg⟩ := Option.isSome_iff_exists.1 hknown
    exact pair c g t hg ht (ih ht)

theorem protect_append {u : Text} (hu : document.fault? u = none) (hv : document.fault? v = none) :
    document.protect (u ++ v) = document.protect u ++ document.protect v :=
  ((protects_of_fault? hu).append (protects_of_fault? hv)).protect_eq

theorem protect_plain (hc : c ≠ '\\') (h : document.fault? t = none) :
    document.protect (c :: t) = c :: document.protect t :=
  ((protects_plain hc).append (protects_of_fault? h)).protect_eq

theorem protect_pair (hg : document.tag? c = some g) (h : document.fault? t = none) :
    document.protect ('\\' :: c :: t) = g.code ++ document.protect t :=
  ((protects_pair hg).append (protects_of_fault? h)).protect_eq

/-- No line ends in an escape pair or in a code. -/
theorem count_newline_protect (h : document.fault? t = none) :
    (document.protect t).count '\n' = t.count '\n' := by
  induction t, h using accepted_induction with
  | nil => rfl
  | plain c t hc h ih => rw [protect_plain hc h, List.count_cons, List.count_cons, ih]
  | pair c g t hg h ih =>
    have hcoded := coded_of_tag? hg
    have hcode : '\n' ∉ g.code := fun hn => by cases hcoded.noBlank _ hn
    have hc : c ≠ '\n' := by
      rintro rfl
      cases hcoded.notBlank
    rw [protect_pair hg h, List.count_append, List.count_eq_zero.2 hcode, ih, Nat.zero_add,
      List.count_cons_of_ne (by decide), List.count_cons_of_ne hc]

/-- What a text is refused for: a backslash behind text that is accepted, either as the last
character, or in front of a character that cannot be escaped. -/
theorem exists_of_faultFrom {f : EscapeFault} {offset : Nat}
    (h : document.faultFrom offset (Piece.ofText t) = some f) :
    ∃ u v, t = u ++ v ∧ f.offset = offset + u.length ∧ document.fault? u = none ∧
      (f.character? = none ∧ v = ['\\'] ∨
        ∃ c rest, f.character? = some c ∧ document.tag? c = none ∧ v = '\\' :: c :: rest) := by
  induction t using Piece.piece_induction generalizing offset with
  | nil => cases h
  | dangling =>
    cases h
    exact ⟨[], ['\\'], rfl, rfl, rfl, .inl ⟨rfl, rfl⟩⟩
  | plain c t hc ih =>
    rw [Piece.ofText_plain hc, faultFrom] at h
    obtain ⟨u, v, rfl, hoffset, hu, hv⟩ := ih h
    refine ⟨c :: u, v, rfl, ?_, (fault?_plain hc u).2 hu, hv⟩
    rw [hoffset, List.length_cons, Nat.add_assoc, Nat.add_comm 1]
  | pair c t ih =>
    rw [Piece.ofText_pair, faultFrom] at h
    split at h
    · rename_i hknown
      obtain ⟨u, v, rfl, hoffset, hu, hv⟩ := ih h
      refine ⟨'\\' :: c :: u, v, rfl, ?_, (fault?_pair c u).2 ⟨hknown, hu⟩, hv⟩
      rw [hoffset, List.length_cons, List.length_cons, Nat.add_assoc, Nat.add_comm 2]
    · rename_i hunknown
      cases h
      exact ⟨[], _, rfl, rfl, rfl, .inr ⟨c, t, rfl, by simpa using hunknown, rfl⟩⟩

/-- A character that no code holds behind its first one stands where the source can be cut. -/
theorem exists_cut (hc : Tag.isInner c = false) (h : document.fault? t = none)
    (hprotect : document.protect t = x ++ c :: y) :
    ∃ u v, t = u ++ v ∧ Protects u x ∧ Protects v (c :: y) := by
  induction t, h using accepted_induction generalizing x with
  | nil => simp [protect, Piece.ofText] at hprotect
  | plain d t hd h ih =>
    cases x with
    | nil =>
      have hall := protects_of_fault? ((fault?_plain hd t).2 h)
      rw [hprotect] at hall
      exact ⟨[], d :: t, rfl, .of_notMem List.not_mem_nil, hall⟩
    | cons e x =>
      rw [protect_plain hd h, List.cons_append, List.cons.injEq] at hprotect
      obtain ⟨rfl, hrest⟩ := hprotect
      obtain ⟨u, v, rfl, hu, hv⟩ := ih hrest
      exact ⟨d :: u, v, rfl, (protects_plain hd).append hu, hv⟩
  | pair d g t hg h ih =>
    have hall := protects_of_fault? ((fault?_pair d t).2 ⟨by rw [hg]; rfl, h⟩)
    rw [hprotect] at hall
    rw [protect_pair hg h] at hprotect
    rcases List.append_eq_append_iff.1 hprotect with ⟨x, rfl, hrest⟩ | ⟨tail, hcode, htail⟩
    · obtain ⟨u, v, rfl, hu, hv⟩ := ih hrest
      exact ⟨'\\' :: d :: u, v, rfl, (protects_pair hg).append hu, hv⟩
    · cases x with
      | nil => exact ⟨[], _, rfl, .of_notMem List.not_mem_nil, hall⟩
      | cons e x =>
        cases tail with
        | nil =>
          rw [List.append_nil] at hcode
          rw [List.nil_append] at htail
          refine ⟨['\\', d], t, rfl, ?_, ?_⟩
          · rw [← hcode]
            exact protects_pair hg
          · rw [htail]
            exact protects_of_fault? h
        | cons e' tail =>
          -- the character would stand in the code, and not at its beginning
          obtain ⟨rfl, -⟩ := List.cons.inj htail
          have hcoded := coded_of_tag? hg
          have hinner : g.inner = x ++ c :: tail := (List.cons.inj hcode).2
          have hmem : c ∈ g.inner := by simp [hinner]
          rw [Tag.Formed.isInner_of_mem ⟨hcoded.begins, hcoded.ends⟩ hmem] at hc
          cases hc

/-- Text without the first character of the codes comes out of protection as it went in. -/
theorem exists_rest (hw : '@' ∉ w) (h : document.fault? t = none)
    (hprotect : document.protect t = w ++ y) : ∃ v, t = w ++ v ∧ Protects v y := by
  induction w generalizing t with
  | nil =>
    have hall := protects_of_fault? h
    rw [hprotect] at hall
    exact ⟨t, rfl, hall⟩
  | cons c w ih =>
    obtain ⟨hc, hmore⟩ := not_or.1 (mt List.mem_cons.2 hw)
    induction t, h using accepted_induction with
    | nil => simp [protect, Piece.ofText] at hprotect
    | plain d t hd h _ =>
      rw [protect_plain hd h, List.cons_append, List.cons.injEq] at hprotect
      obtain ⟨rfl, hrest⟩ := hprotect
      obtain ⟨v, rfl, hv⟩ := ih hmore h hrest
      exact ⟨v, rfl, hv⟩
    | pair d g t hg h _ =>
      rw [protect_pair hg h, Tag.code_eq, List.cons_append, List.cons_append,
        List.cons.injEq] at hprotect
      exact absurd hprotect.1 hc

end Scheme

namespace Text

/-! ## Places -/

/-- A place of a source: the cut into `u` and `v`, which goes through no escape pair, and its
offset in the protected text of the source. -/
structure Place (t u v : Text) (offset : Nat) : Prop where
  split : t = u ++ v
  before : Scheme.document.fault? u = none
  behind : Scheme.document.fault? v = none
  offset : (Scheme.document.protect u).length = offset

namespace Place

variable {t u v w x y : Text} {c : Char} {n : Nat}

theorem start (h : Scheme.document.fault? t = none) : Place t [] t 0 := ⟨rfl, rfl, h, rfl⟩

theorem finish (h : Scheme.document.fault? t = none) :
    Place t t [] (Scheme.document.protect t).length := ⟨t.append_nil.symm, h, rfl, rfl⟩

/-- The place of a text that stands behind another place. -/
theorem shift (h : Place t u v n) {a b : Text} (hv : v = a ++ b) (ha : Scheme.Protects a x)
    (hb : Scheme.Protects b y) : Place t (u ++ a) b (n + x.length) := by
  have hbefore := (Scheme.protects_of_fault? h.before).append ha
  refine ⟨?_, hbefore.fault?_eq, hb.fault?_eq, ?_⟩
  · rw [h.split, hv, List.append_assoc]
  · rw [hbefore.protect_eq, List.length_append, h.offset]

/-- A character that no code holds behind its first one is at a place. -/
theorem seek (h : Place t u v n) (hv : Scheme.document.protect v = x ++ c :: y)
    (hc : Tag.isInner c = false) :
    ∃ u' v', Place t u' v' (n + x.length) ∧ Scheme.document.protect v' = c :: y := by
  obtain ⟨a, b, hsplit, ha, hb⟩ := Scheme.exists_cut hc h.behind hv
  exact ⟨u ++ a, b, h.shift hsplit ha hb, hb.protect_eq⟩

/-- Text without the first character of the codes leads from one place to the next. -/
theorem advance (h : Place t u v n) (hv : Scheme.document.protect v = w ++ y) (hw : '@' ∉ w) :
    ∃ v', v = w ++ v' ∧ Place t (u ++ w) v' (n + w.length) ∧
      Scheme.document.protect v' = y := by
  obtain ⟨v', rfl, hv'⟩ := Scheme.exists_rest hw h.behind hv
  have hescape : '\\' ∉ w := by
    have := Scheme.notMem_protect h.behind
    rw [hv, List.mem_append, not_or] at this
    exact this.1
  exact ⟨v', rfl, h.shift rfl (.of_notMem hescape) hv', hv'.protect_eq⟩

/-- A place is in the same line of the source and of its protected text. -/
theorem lineAt_eq (h : Place t u v n) :
    (Scheme.document.protect t).lineAt n = t.lineAt u.length := by
  rw [h.split, Scheme.protect_append h.before h.behind, ← h.offset, lineAt, lineAt,
    List.take_left' rfl, List.take_left' rfl, Scheme.count_newline_protect h.before]

end Place

/-! ## Directives -/

/-- No escape pair and no code begins with a word. -/
theorem takeWhile_isWord_protect (h : Scheme.document.fault? t = none) :
    (Scheme.document.protect t).takeWhile isWord = t.takeWhile isWord := by
  induction t, h using Scheme.accepted_induction with
  | nil => rfl
  | plain c t hc h ih =>
    rw [Scheme.protect_plain hc h, List.takeWhile_cons, List.takeWhile_cons, ih]
  | pair c g t hg h _ => rw [Scheme.protect_pair hg h]; rfl

/-- Protection brings up no keyword. -/
theorem hasDirective_protect (h : Scheme.document.fault? t = none)
    (ht : t.hasDirective = false) : (Scheme.document.protect t).hasDirective = false := by
  rw [Bool.eq_false_iff]
  intro hprotect
  obtain ⟨s, ⟨x, hx⟩, hsome⟩ := hasDirective_iff.1 hprotect
  obtain ⟨d, hd⟩ := Option.isSome_iff_exists.1 hsome
  cases s with
  | nil => cases hd
  | cons c rest =>
    obtain ⟨rfl, hname, -⟩ := eq_of_directive? hd
    -- the full stop stands in the source, and the same word behind it
    obtain ⟨u, v, hstop, hv⟩ := (Place.start h).seek hx.symm rfl
    obtain ⟨v, rfl, hword, rfl⟩ := hstop.advance (w := ['.']) hv (by decide)
    rw [takeWhile_isWord_protect hword.behind] at hname
    have hkeyword : directive? (['.'] ++ v) = some d := by
      rw [List.singleton_append, directive?_stop, hname, Directive.ofName?_name]
    have hsource : t.hasDirective = true :=
      hasDirective_iff.2 ⟨['.'] ++ v, ⟨u, hstop.split.symm⟩, by rw [hkeyword]; rfl⟩
    rw [ht] at hsource
    cases hsource

/-! ## Blocks -/

/-- What a text begins with where a block is missed: the keyword at the end of the input, or the
token that was found, or the brace that nothing closes. -/
inductive Offends (lexer : Lexer) (v : Text) : BlockProblem → Prop where
  | atEnd {keyword : Text} (h : keyword <+: v) : Offends lexer v (.expected keyword .endOfInput)
  | found {keyword : Text} {token : Token}
      (h : (lexer.tokens (Scheme.document.protect v)).head? = some token)
      (blank : token.kind ≠ .blank) (opening : token.kind ≠ .blockStart) :
      Offends lexer v (.expected keyword (.ofToken? (some token)))
  | unclosed {keyword rest : Text} (h : v = '\x7b' :: rest)
      (unclosed : closing 0 (Scheme.document.protect rest) = none) :
      Offends lexer v (.unterminated keyword)

namespace Place

variable {lexer : Lexer} {keyword t u v : Text} {offset n m : Nat} {f : BlockFault}

/-- What stands behind the blanks at a place is at a place. -/
theorem skipBlanks (h : Place t u v n) : ∃ u' v',
    Place t u' v' (n + ((Scheme.document.protect v).takeWhile isBlank).length) ∧
      Scheme.document.protect v' = (Scheme.document.protect v).dropWhile isBlank := by
  have hat : '@' ∉ (Scheme.document.protect v).takeWhile isBlank := by
    intro hmem
    cases eq_true_of_mem_takeWhile hmem
  obtain ⟨v', -, hplace, hv'⟩ := h.advance List.takeWhile_append_dropWhile.symm hat
  exact ⟨_, v', hplace, hv'⟩

theorem of_readBlock (hl : lexer.Structural) (hkeyword : ∃ u v, Place t u (keyword ++ v) n)
    (h : Place t u v (n + offset))
    (hread : readBlock lexer keyword offset (Scheme.document.protect v) = .error f) :
    ∃ u v, Place t u v (n + f.offset) ∧ Offends lexer v f.problem := by
  obtain ⟨u', v', hplace, hv'⟩ := h.skipBlanks
  unfold readBlock at hread
  split at hread
  · cases hread
    obtain ⟨u, v, hkeyword⟩ := hkeyword
    exact ⟨u, _, hkeyword, .atEnd (List.prefix_append keyword v)⟩
  rename_i c rest hd
  rw [hd] at hv'
  simp only at hread
  split at hread
  · rename_i hc
    subst hc
    split at hread
    · cases hread
    · rename_i hclosing
      cases hread
      obtain ⟨v', rfl, -, rfl⟩ := hplace.advance (w := ['\x7b']) hv' (by decide)
      rw [Nat.add_assoc] at hplace
      exact ⟨u', _, hplace, .unclosed rfl hclosing⟩
  · rename_i hc
    cases hread
    have hblank : isBlank c = false := by
      have hhead := List.head_dropWhile_not isBlank (l := Scheme.document.protect v)
        (by rw [hd]; exact List.cons_ne_nil c rest)
      simpa only [hd, List.head_cons] using hhead
    have htokens : lexer.tokens (c :: rest) = _ := Lexer.tokensFrom_cons lexer 0 c rest
    rw [Nat.add_assoc] at hplace
    refine ⟨u', v', hplace, ?_⟩
    rw [htokens]
    refine .found (by rw [hv', htokens]; rfl) ?_ (hl.kind_ne_blockStart hc rest)
    intro hkind
    rw [(hl.kind_eq_blank c rest).1 hkind] at hblank
    cases hblank

/-- The first block that cannot be read is reported at a place, which is behind a keyword at one. -/
theorem of_readBlocks (hl : lexer.Structural) (hkeyword : ∃ u v, Place t u (keyword ++ v) n)
    (h : Place t u v (n + offset))
    (hread : readBlocks lexer keyword m offset (Scheme.document.protect v) = .error f) :
    ∃ u v, Place t u v (n + f.offset) ∧ Offends lexer v f.problem := by
  induction m generalizing offset u v with
  | zero => cases hread
  | succ m ih =>
    rw [readBlocks] at hread
    split at hread
    · rename_i fault hfirst
      cases hread
      exact of_readBlock hl hkeyword h hfirst
    rename_i first behind hfirst
    split at hread
    · rename_i fault hothers
      cases hread
      obtain ⟨hsplit, -⟩ := eq_of_readBlock hfirst
      obtain ⟨u', v', hclosing, hv'⟩ := h.seek hsplit rfl
      obtain ⟨v', -, hbehind, rfl⟩ := hclosing.advance (w := ['\x7d']) hv' (by decide)
      have hlength := congrArg List.length hsplit
      simp only [List.length_append, List.length_cons] at hlength
      have hoffset : n + offset +
          ((Scheme.document.protect v).takeWhile isBlank ++ '\x7b' :: first).length + 1 =
          n + (offset + ((Scheme.document.protect v).length -
            (Scheme.document.protect v').length)) := by
        simp only [List.length_append, List.length_cons]
        omega
      rw [List.length_singleton, hoffset] at hbehind
      exact ih hbehind hothers
    · cases hread

end Place

end Text

end Bracemark
