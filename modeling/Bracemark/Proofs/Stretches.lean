import Bracemark.Directive.Site
import Bracemark.Proofs.Blocks
import Bracemark.Proofs.Cuts

/-!
# Stretches of a buffer

The scan for a family goes over tokens with their offsets. `Stretch.ofText` is the same scan
on the characters of the buffer, and without offsets: it cuts the buffer into characters
that are kept, sites with the texts of their blocks, and perhaps a fault at the end. The
sites of a buffer are those of its stretches, each at the place where it stands
(`scan_eq_located`). The stretches of two parts can be put together as `Cuts` says, which the
tokens of two parts in general cannot.

In the same way a text holds a directive if one begins at any of its characters
(`hasDirective_iff`).
-/

namespace Bracemark

/-! ## Where directives begin -/

namespace Lexer

/-- No lexeme has a full stop in it, its first character apart. -/
theorem ne_stop_of_mem_take {c : Char} {rest : Text} {x : Char}
    (hx : x ∈ rest.take (directive c rest).2) : x ≠ '.' := by
  rintro rfl
  rcases directive_cases c rest with ⟨-, h⟩ | ⟨-, h⟩ | ⟨-, h⟩ | ⟨d, -, -, h⟩ | ⟨-, -, h⟩ |
    ⟨-, -, -, h⟩ <;> rw [h] at hx
  · rw [take_length_takeWhile] at hx
    cases eq_true_of_mem_takeWhile hx
  · cases hx
  · cases hx
  · rw [take_length_takeWhile] at hx
    cases eq_true_of_mem_takeWhile hx
  · cases hx
  · rw [take_length_takeWhile] at hx
    cases eq_true_of_mem_takeWhile hx

end Lexer

namespace Text

/-- The directive whose keyword a text begins with. -/
def directive? : Text → Option Directive
  | [] => none
  | c :: rest => if c = '.' then Directive.ofName? (rest.takeWhile isWord) else none

theorem directive?_stop (rest : Text) :
    directive? ('.' :: rest) = Directive.ofName? (rest.takeWhile isWord) := rfl

theorem directive?_of_ne {c : Char} (hc : c ≠ '.') (rest : Text) :
    directive? (c :: rest) = none := if_neg hc

end Text

/-- The token at the start of a text is a directive if the text begins with its keyword. -/
theorem Token.directive?_eq (c : Char) (rest : Text) (start : Nat) (text : Text) :
    Token.directive? ⟨(Lexer.directive c rest).1, start, text⟩ = Text.directive? (c :: rest) := by
  rcases Lexer.directive_cases c rest with ⟨hb, h⟩ | ⟨rfl, h⟩ | ⟨rfl, h⟩ | ⟨d, rfl, hn, h⟩ |
    ⟨rfl, hn, h⟩ | ⟨-, -, hc, h⟩ <;> rw [h]
  · rw [Text.directive?_of_ne]
    · rfl
    · rintro rfl
      cases hb
  · rfl
  · rfl
  · rw [Text.directive?_stop, hn, Directive.ofName?_name]
    rfl
  · rw [Text.directive?_stop, hn]
    rfl
  · rw [Text.directive?_of_ne hc]
    rfl

theorem any_placeFrom (start other : Nat) (es : List (TokenKind × Text)) :
    (Token.placeFrom start es).any (fun t => t.directive?.isSome) =
      (Token.placeFrom other es).any (fun t => t.directive?.isSome) := by
  induction es generalizing start other with
  | nil => rfl
  | cons e es ih =>
    rw [Token.placeFrom, Token.placeFrom, List.any_cons, List.any_cons, ih]
    rfl

namespace Text

theorem hasDirective_cons_eq (c : Char) (rest : Text) :
    hasDirective (c :: rest) =
      ((directive? (c :: rest)).isSome || hasDirective (rest.drop (Lexer.directive c rest).2)) := by
  unfold hasDirective
  rw [Lexer.tokens, ← Lexer.tokensFrom, Lexer.tokensFrom_cons, List.any_cons,
    Token.directive?_eq]
  exact congrArg _ (any_placeFrom ..)

/-- A text that begins with a keyword begins with the token of that keyword. -/
theorem eq_of_directive? {c : Char} {rest : Text} {d : Directive}
    (h : directive? (c :: rest) = some d) :
    c = '.' ∧ rest.takeWhile isWord = d.name.toList ∧
      Lexer.directive c rest = (.directive d, d.name.length) := by
  by_cases hc : c = '.'
  · subst hc
    rw [directive?_stop] at h
    refine ⟨rfl, Directive.eq_of_ofName? h, ?_⟩
    unfold Lexer.directive
    rw [if_neg (by decide), if_neg (by decide), if_neg (by decide), if_pos rfl, h]
  · rw [directive?_of_ne hc] at h
    cases h

/-- A directive does not begin at a character that is no full stop. -/
theorem suffix_of_directive? {u v s : Text} (hu : ∀ x ∈ u, x ≠ '.') (hs : s <:+ u ++ v)
    (hd : (directive? s).isSome) : s <:+ v := by
  induction u with
  | nil => exact hs
  | cons x u ih =>
    rcases List.suffix_cons_iff.1 hs with rfl | hs
    · rw [directive?_of_ne (hu x List.mem_cons_self)] at hd
      cases hd
    · exact ih (fun y hy => hu y (List.mem_cons_of_mem x hy)) hs

/-- A text holds a directive if one begins at one of its characters. -/
theorem hasDirective_iff {t : Text} :
    t.hasDirective = true ↔ ∃ s, s <:+ t ∧ (directive? s).isSome := by
  induction t using segment_induction Lexer.directive with
  | nil =>
    refine iff_of_false Bool.false_ne_true ?_
    rintro ⟨s, hs, hd⟩
    rw [List.suffix_nil.1 hs] at hd
    cases hd
  | cons c rest ih =>
    rw [hasDirective_cons_eq, Bool.or_eq_true, ih]
    constructor
    · rintro (hd | ⟨s, hs, hd⟩)
      · exact ⟨c :: rest, List.suffix_rfl, hd⟩
      · exact ⟨s, hs.trans ((List.drop_suffix _ _).trans (List.suffix_cons c rest)), hd⟩
    · rintro ⟨s, hs, hd⟩
      rcases List.suffix_cons_iff.1 hs with rfl | hs
      · exact .inl hd
      · refine .inr ⟨s, suffix_of_directive? (u := rest.take (Lexer.directive c rest).2)
          (fun x => Lexer.ne_stop_of_mem_take) ?_ hd, hd⟩
        rwa [List.take_append_drop]

theorem hasDirective_of_notMem {t : Text} (h : '.' ∉ t) : t.hasDirective = false := by
  rw [Bool.eq_false_iff]
  intro ht
  obtain ⟨s, hs, hd⟩ := hasDirective_iff.1 ht
  have := suffix_of_directive? (v := []) (fun x hx e => h (e ▸ hx)) (by rwa [List.append_nil]) hd
  rw [List.suffix_nil.1 this] at hd
  cases hd

end Text

/-! ## Stretches -/

/-- What the scan for a family finds at one place of a buffer. The offset of a fault counts
from the keyword, and nothing is scanned behind it. -/
inductive Stretch where
  | kept (c : Char)
  | site (d : Directive) (arguments : List Text) (written : Text)
  | fault (f : BlockFault)

namespace Stretch

/-- What the scan finds at one character, and the number of characters it passes over. -/
def step (family : Family) (c : Char) (rest : Text) : Stretch × Nat :=
  match Text.directive? (c :: rest) with
  | none => (.kept c, 0)
  | some d =>
    if d.family = family then
      match Text.readBlocks Lexer.directive ('.' :: d.name.toList) d.arity (d.name.length + 1)
          (rest.drop d.name.length) with
      | .error f => (.fault f, rest.length)
      | .ok (arguments, after) =>
        if d.waits && arguments.any Text.hasDirective then (.kept c, 0)
        else
          let more := rest.length - after.length
          (.site d arguments (c :: rest.take more), more)
    else (.kept c, 0)

/-- The stretches of a buffer. -/
def ofText (family : Family) (t : Text) : List Stretch := segment (step family) 0 t

/-- The characters of a stretch. -/
def written : Stretch → Text
  | .kept c => [c]
  | .site _ _ w => w
  | .fault _ => []

/-- The sites of stretches that begin at an offset of a buffer. -/
def located (buffer : Text) : Nat → List Stretch → List (Except BlockFault Site)
  | _, [] => []
  | start, .kept _ :: rest => located buffer (start + 1) rest
  | start, .site d arguments w :: rest =>
    .ok ⟨d, start, start + w.length, buffer.lineAt start, arguments⟩ ::
      located buffer (start + w.length) rest
  | start, .fault f :: rest => .error ⟨f.problem, start + f.offset⟩ :: located buffer start rest

variable {family : Family}

theorem step_of_none {c : Char} {rest : Text} (h : Text.directive? (c :: rest) = none) :
    step family c rest = (.kept c, 0) := by
  unfold step
  rw [h]

theorem cuts_kept (family : Family) {u : Text} (h : ∀ x ∈ u, x ≠ '.') :
    Cuts (step family) u (u.map .kept) :=
  Cuts.map fun x hx post => step_of_none (Text.directive?_of_ne (h x hx) post)

theorem located_kept (buffer : Text) (start : Nat) (u : Text) (rest : List Stretch) :
    located buffer start (u.map .kept ++ rest) = located buffer (start + u.length) rest := by
  induction u generalizing start with
  | nil => rfl
  | cons c u ih =>
    rw [List.map_cons, List.cons_append, located, ih, List.length_cons, Nat.add_assoc,
      Nat.add_comm 1]

/-- A stretch takes along what is written in it, a fault everything that is left. -/
theorem step_written (family : Family) (c : Char) (rest : Text) :
    (step family c rest).1.written = c :: rest.take (step family c rest).2 ∨
      ∃ f, step family c rest = (.fault f, rest.length) := by
  unfold step
  split
  · exact .inl rfl
  split
  · split
    · exact .inr ⟨_, rfl⟩
    · split
      · exact .inl rfl
      · exact .inl rfl
  · exact .inl rfl

/-- The stretches of a buffer spell the buffer if there is no fault among them. -/
theorem flatMap_written {t : Text} (h : ∀ f, .fault f ∉ ofText family t) :
    (ofText family t).flatMap written = t := by
  induction t using segment_induction (step family) with
  | nil => rfl
  | cons c rest ih =>
    rw [ofText, segment_zero_cons, ← ofText] at h ⊢
    rcases step_written family c rest with hw | ⟨f, hf⟩
    · rw [List.flatMap_cons, hw, List.cons_append,
        ih fun f hf => h f (List.mem_cons_of_mem _ hf), List.take_append_drop]
    · rw [hf] at h
      exact absurd List.mem_cons_self (h f)

/-- A site takes up room. -/
theorem site_nil_notMem (t : Text) (d : Directive) (arguments : List Text) :
    .site d arguments [] ∉ ofText family t := by
  intro h
  obtain ⟨c, rest, hstep⟩ := exists_step_of_mem_segment h
  rcases step_written family c rest with hw | ⟨f, hf⟩
  · rw [hstep] at hw
    cases hw
  · rw [hf] at hstep
    cases hstep

/-- A token that is passed over is a run of kept characters. -/
theorem located_passed {c : Char} {rest : Text} (h : step family c rest = (.kept c, 0))
    (buffer : Text) (start : Nat) :
    located buffer start (ofText family (c :: rest)) =
      located buffer (start + 1 + (rest.take (Lexer.directive c rest).2).length)
        (ofText family (rest.drop (Lexer.directive c rest).2)) := by
  rw [ofText, segment_zero_cons, h, List.drop_zero]
  have hrun := cuts_kept family (u := rest.take (Lexer.directive c rest).2)
    fun x => Lexer.ne_stop_of_mem_take
  have hcut := hrun (rest.drop (Lexer.directive c rest).2)
  rw [List.take_append_drop] at hcut
  rw [located, hcut, located_kept]
  rfl

/-- The tokens of what is left of a buffer. -/
def remaining (buffer t : Text) : List Token :=
  Lexer.directive.tokensFrom (buffer.length - t.length) t

/-- The scan of tokens and that of characters find the same at the start of a token: nothing
to resolve, a fault, or a site. -/
theorem step_cases (family : Family) {buffer : Text} {c : Char} {rest : Text}
    (ht : c :: rest <:+ buffer)
    {start more : Nat} (hstart : buffer.length - (c :: rest).length = start)
    (hmore : (Lexer.directive c rest).2 = more) {found : List (Except BlockFault Site) × Nat}
    (hfound : Site.step family buffer ⟨(Lexer.directive c rest).1, start, c :: rest.take more⟩
      (remaining buffer (rest.drop more)) = found) :
    (found = ([], 0) ∧ step family c rest = (.kept c, 0)) ∨
    (∃ f : BlockFault, found =
        ([.error ⟨f.problem, start + f.offset⟩], (remaining buffer (rest.drop more)).length) ∧
      step family c rest = (.fault f, rest.length)) ∨
    (∃ d arguments after, after <:+ rest ∧
      remaining buffer after <:+ remaining buffer (rest.drop more) ∧
      found = ([.ok ⟨d, start, buffer.length - after.length, buffer.lineAt start, arguments⟩],
        (remaining buffer (rest.drop more)).length - (remaining buffer after).length) ∧
      step family c rest = (.site d arguments (c :: rest.take (rest.length - after.length)),
        rest.length - after.length)) := by
  unfold Site.step at hfound
  rw [Token.directive?_eq] at hfound
  unfold step
  cases hd : Text.directive? (c :: rest) with
  | none =>
    rw [hd] at hfound
    exact .inl ⟨hfound.symm, rfl⟩
  | some d =>
    rw [hd] at hfound
    simp only at hfound ⊢
    by_cases hfam : d.family = family
    case neg =>
      rw [if_neg hfam] at hfound
      rw [if_neg hfam]
      exact .inl ⟨hfound.symm, rfl⟩
    rw [if_pos hfam] at hfound
    rw [if_pos hfam]
    obtain ⟨rfl, hname, hlexer⟩ := Text.eq_of_directive? hd
    have hlen := ht.length_le
    have hle := Lexer.structural_directive.length_le '.' rest
    rw [hlexer] at hmore hle hfound
    subst hmore
    -- the token is the keyword, and its blocks are read off the same text on both sides
    have hkeyword : '.' :: rest.take d.name.length = '.' :: d.name.toList := by
      rw [← String.length_toList, ← hname, take_length_takeWhile]
    rw [hkeyword] at hfound
    have hdrop : rest.drop d.name.length <:+ buffer :=
      (List.drop_suffix _ _).trans ((List.suffix_cons '.' rest).trans ht)
    have hplace : buffer.length - (rest.drop d.name.length).length =
        start + (d.name.length + 1) := by
      rw [List.length_cons] at hlen hstart
      rw [List.length_drop]
      simp only at hle
      omega
    let keyword : Token := ⟨.directive d, start, '.' :: d.name.toList⟩
    cases hread : Text.readBlocks Lexer.directive ('.' :: d.name.toList) d.arity
        (d.name.length + 1) (rest.drop d.name.length) with
    | error f =>
      obtain ⟨left, hleft⟩ := Lexer.structural_directive.readBlocks_tokensFrom_error
        keyword hdrop hplace hread
      rw [remaining, hleft] at hfound
      exact .inr (.inl ⟨f, hfound.symm, rfl⟩)
    | ok read =>
      obtain ⟨arguments, after⟩ := read
      obtain ⟨bs, hbs, harguments, hlast⟩ := Lexer.structural_directive.readBlocks_tokensFrom
        keyword hdrop hread
      have hsuffix := Token.readBlocks_suffix hbs
      have harity : 0 < d.arity := by cases d <;> decide
      rw [remaining, hbs] at hfound
      simp only [harguments, hlast harity, Option.getD_some] at hfound ⊢
      split at hfound
      · rename_i hwaits
        rw [if_pos hwaits]
        exact .inl ⟨hfound.symm, rfl⟩
      · rename_i hwaits
        rw [if_neg hwaits]
        exact .inr (.inr ⟨d, arguments, after,
          (Text.suffix_of_readBlocks hread).trans (List.drop_suffix _ _), hsuffix,
          hfound.symm, rfl⟩)

/-- The sites that the scan finds in what is left of a buffer. -/
theorem scan_remaining (family : Family) (buffer : Text) {t : Text} (ht : t <:+ buffer) :
    (segment (Site.step family buffer) 0 (remaining buffer t)).flatten =
      located buffer (buffer.length - t.length) (ofText family t) := by
  induction t using suffix_induction with
  | nil => rfl
  | cons c rest ih =>
    have hrest : rest <:+ buffer := (List.suffix_cons c rest).trans ht
    have hle := Lexer.structural_directive.length_le c rest
    have hlen : buffer.length - (c :: rest).length + 1 + rest.length = buffer.length := by
      have := ht.length_le
      rw [List.length_cons] at this ⊢
      omega
    have hplace : buffer.length - (c :: rest).length + 1 +
        (rest.take (Lexer.directive c rest).2).length =
        buffer.length - (rest.drop (Lexer.directive c rest).2).length := by
      rw [List.length_take, List.length_drop]
      omega
    have hhead : remaining buffer (c :: rest) = _ := Lexer.tokensFrom_cons ..
    rw [hplace, ← remaining] at hhead
    rw [hhead, segment_zero_cons, List.flatten_cons]
    rcases step_cases family ht rfl rfl rfl with ⟨hsite, hstep⟩ |
      ⟨f, hsite, hstep⟩ | ⟨d, arguments, after, hafter, htokens, hsite, hstep⟩
    · -- the tokens go on behind this one, the characters behind its first
      have hdrop := List.drop_suffix (Lexer.directive c rest).2 rest
      rw [hsite, located_passed hstep, hplace]
      exact ih _ hdrop (hdrop.trans hrest)
    · rw [hsite, ofText, segment_zero_cons, hstep, List.drop_length, List.drop_length]
      rfl
    · have hlt := hafter.length_le
      have hstop : buffer.length - (c :: rest).length +
          (c :: rest.take (rest.length - after.length)).length =
          buffer.length - after.length := by
        simp only [List.length_cons, List.length_take] at hlen ⊢
        omega
      rw [hsite, ofText, segment_zero_cons, hstep, ← List.suffix_iff_eq_drop.1 hafter, located,
        hstop, ← List.suffix_iff_eq_drop.1 htokens, ih after hafter (hafter.trans hrest)]
      rfl

end Stretch

/-- The sites of a buffer are those of its stretches. -/
theorem Site.scan_eq_located (family : Family) (buffer : Text) :
    scan family buffer = Stretch.located buffer 0 (Stretch.ofText family buffer) := by
  have := Stretch.scan_remaining family buffer (t := buffer) List.suffix_rfl
  rwa [Stretch.remaining, Nat.sub_self] at this

end Bracemark
