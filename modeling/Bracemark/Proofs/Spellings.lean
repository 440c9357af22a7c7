import Bracemark.Proofs.Boundaries
import Bracemark.Proofs.Inline
import Bracemark.Proofs.Outline
import Mathlib.Data.List.Forall2

/-!
# Spellings of a character

A document writes a character as it is, with a backslash in front of it, or as a code point with its
number (`Spells`). Which of them it takes makes no difference: whatever the characters of a text are
and however each one is spelled, the paragraph is that text (`compile_spelled`), also where
spellings that meet would read as a keyword, a brace or a protected code.

Protection takes care of the backslashes. What is left spells the text in numbers and shielded
characters (`Spelled`), no stage but that of code points finds anything in it, and that one gives
the shielded text.
-/

namespace Bracemark

/-- The spellings of a character in running text: itself if it means nothing in markup, a backslash
in front of it if it does, or its number in one to six hexadecimal digits, between blanks. -/
inductive Spells (c : Char) : Text → Prop where
  | plain (unmarked : c ∉ Text.marked) : Spells c [c]
  | escaped (marked : c ∈ Text.marked) : Spells c ['\\', c]
  | numbered {before digits after : Text} (blankBefore : ∀ x ∈ before, isBlank x = true)
      (hex : ∀ x ∈ digits, Pattern.isHex x = true) (notEmpty : 0 < digits.length)
      (short : digits.length ≤ 6) (value : Pattern.digitsValue 16 digits = c.toNat)
      (blankAfter : ∀ x ∈ after, isBlank x = true) :
      Spells c (Directive.codePoint.written [before ++ digits ++ after])

/-! ## Numbers between blanks -/

namespace Text

/-- Blanks around a text without blanks are trimmed. -/
theorem trim_padded {before u after : Text} (hbefore : ∀ x ∈ before, isBlank x = true)
    (hu : ∀ x ∈ u, isBlank x = false) (hne : u ≠ []) (hafter : ∀ x ∈ after, isBlank x = true) :
    (before ++ u ++ after).trim = u := by
  have hdrop {gap v w : Text} (hgap : ∀ x ∈ gap, isBlank x = true) (hne : v ≠ [])
      (hv : ∀ x ∈ v, isBlank x = false) : (gap ++ (v ++ w)).dropWhile isBlank = v ++ w := by
    rw [List.dropWhile_append_of_pos hgap]
    cases v with
    | nil => exact absurd rfl hne
    | cons x v => simp [hv x List.mem_cons_self]
  have hreverse : (u ++ after).reverse = after.reverse ++ (u.reverse ++ []) := by simp
  rw [trim, trimWhile, List.append_assoc, hdrop hbefore hne hu, hreverse,
    hdrop (by simpa using hafter) (by simpa using hne) (by simpa using hu)]
  simp

theorem inert_of_blank {gap : Text} (h : ∀ x ∈ gap, isBlank x = true) : gap.Inert := by
  intro x hx
  have hblank := h x hx
  cases hreserved : isReserved x with
  | false => rfl
  | true => rcases eq_of_isReserved hreserved with rfl | rfl | rfl | rfl <;> cases hblank

end Text

/-! ## Protected spellings -/

/-- A protected text that spells a text: its code points still to be read are those of numbers, and
reading them gives the shielded text. -/
structure Spelled (t u : Text) : Prop where
  noEscape : '\\' ∉ u
  nested : u.Nested
  waits : ∀ ctx f, f ≠ .codePoints → Rewrites ctx f u u
  decoded : ∀ ctx, Rewrites ctx .codePoints u (Scheme.document.shield t)

namespace Spelled

/-- A shielded text spells the text. -/
theorem shield (t : Text) : Spelled t (Scheme.document.shield t) where
  noEscape := (Scheme.inert_shield t).notMem rfl
  nested := (Scheme.inert_shield t).nested
  waits _ _ _ := .kept ((Scheme.inert_shield t).notMem rfl)
  decoded _ := .kept ((Scheme.inert_shield t).notMem rfl)

theorem append {t u t' u' : Text} (h : Spelled t u) (h' : Spelled t' u') :
    Spelled (t ++ t') (u ++ u') where
  noEscape := List.not_mem_append h.noEscape h'.noEscape
  nested := h.nested.append h'.nested
  waits ctx f hf := (h.waits ctx f hf).append (h'.waits ctx f hf)
  decoded ctx := by
    rw [Scheme.shield, List.flatMap_append]
    exact (h.decoded ctx).append (h'.decoded ctx)

/-- A number between blanks spells its character. -/
theorem numbered {n : Numeral} {before after : Text} (hbefore : ∀ x ∈ before, isBlank x = true)
    (hafter : ∀ x ∈ after, isBlank x = true) :
    Spelled [n.character] (Directive.codePoint.written [before ++ n.digits ++ after]) := by
  have hinert : (before ++ n.digits ++ after).Inert :=
    ((Text.inert_of_blank hbefore).append n.inert_digits).append (Text.inert_of_blank hafter)
  have htrim : (before ++ n.digits ++ after).trim = n.digits := by
    refine Text.trim_padded hbefore ?_ (List.length_pos_iff.1 n.notEmpty) hafter
    intro x hx
    exact Pattern.isBlank_of_isHex (n.hex x hx)
  refine ⟨?_, ?_, ?_, ?_⟩
  · exact Directive.notMem_written _ (List.forall_mem_singleton.2 (hinert.notMem rfl))
  · exact Directive.nested_written _ (List.forall_mem_singleton.2 hinert.nested)
  · intro ctx f hf
    exact Rewrites.waiting (d := .codePoint) [(before ++ n.digits ++ after,
      before ++ n.digits ++ after)] rfl (by simpa using hinert.nested) (.inl hf.symm)
      (by simpa using Rewrites.kept (hinert.notMem rfl))
  · intro ctx
    refine Rewrites.site (d := .codePoint) rfl (List.forall_mem_singleton.2 hinert.nested) rfl ?_
    intro start stop line
    simp only [Resolve.site, Site.first, List.headD_cons, htrim, n.codePoint?_digits]
    exact .pure _

/-- Where no directive is left, everything is shielded. -/
theorem eq_shield {t u : Text} (h : Spelled t u) (hresolved : u.hasDirective = false) :
    u = Scheme.document.shield t := by
  have hkept : Stretch.ofText .codePoints u = u.map .kept :=
    Stretch.ofText_of_lacks (Text.lacks_of_hasDirective hresolved .codePoints)
  obtain ⟨ws, hcut, hresolve⟩ := h.decoded {}
  have hws : ws = u.map .kept := hcut.segment_eq.symm.trans hkept
  obtain ⟨s, hs, -⟩ := hresolve u 0 {} rfl
  rw [hws, Stretch.resolve_map_kept] at hs
  cases hs
  rfl

end Spelled

/-- Protection turns a spelling of a character into one without backslashes. -/
theorem Spells.exists_spelled {c : Char} {u : Text} (h : Spells c u) :
    ∃ v, Scheme.Protects u v ∧ Spelled [c] v := by
  have hescape := Scheme.Protects.escape [c]
  rw [← Text.escaped_eq] at hescape
  cases h with
  | plain hc =>
    have hwritten : Text.escaped [c] = [c] := by simp [Text.escaped, hc]
    rw [hwritten] at hescape
    exact ⟨_, hescape, .shield [c]⟩
  | escaped hc =>
    have hwritten : Text.escaped [c] = ['\\', c] := by simp [Text.escaped, hc]
    rw [hwritten] at hescape
    exact ⟨_, hescape, .shield [c]⟩
  | @numbered before digits after hbefore hhex hne hshort hvalue hafter =>
    have hcharacter : Char.ofNat (Pattern.digitsValue 16 digits) = c := by
      rw [hvalue, Char.ofNat_toNat]
    have hspelled := Spelled.numbered (n := ⟨digits, hne, hshort, hhex, hvalue ▸ c.valid⟩)
      hbefore hafter
    rw [Numeral.character, hcharacter] at hspelled
    exact ⟨_, .of_notMem hspelled.noEscape, hspelled⟩

/-- Spellings of characters, one behind the other, are spellings of the text. -/
theorem exists_spelled_flatten {t : Text} {us : List Text} (h : List.Forall₂ Spells t us) :
    ∃ v, Scheme.Protects us.flatten v ∧ Spelled t v := by
  induction h with
  | nil => exact ⟨[], .of_notMem List.not_mem_nil, .shield []⟩
  | @cons c u t us hc _ ih =>
    obtain ⟨v, hprotects, hv⟩ := hc.exists_spelled
    obtain ⟨w, hprotects', hw⟩ := ih
    exact ⟨v ++ w, hprotects.append hprotects', hv.append hw⟩

/-! ## A paragraph -/

/-- A document of one paragraph. -/
def Outline.paragraph (t : Text) : Outline .root :=
  .container .contents (.refl true) (.refl false)
    (.leaf .paragraph (.refl true) (.refl true) t .done) .done

/-- A document of one paragraph in which a text is spelled. -/
def paragraphOf (u : Text) : Text := Kind.contents.block (Kind.paragraph.block u)

theorem Outline.markup_paragraph (t : Text) :
    (paragraph t).markup = paragraphOf (Scheme.document.shield t) := by
  simp [paragraph, markup, write, paragraphOf]

namespace Spelled

variable {t u : Text}

theorem noEscape_paragraphOf (h : Spelled t u) : '\\' ∉ paragraphOf u := by
  have hword : '\\' ∉ Kind.contents.word.toList ∧ '\\' ∉ Kind.paragraph.word.toList := by decide
  simpa [paragraphOf, Kind.block, hword] using h.noEscape

theorem nested_paragraphOf (h : Spelled t u) : (paragraphOf u).Nested :=
  Kind.contents.nested_block (Kind.paragraph.nested_block h.nested)

theorem rewrites_paragraphOf {ctx : Context} {f : Family} {v : Text} (h : Rewrites ctx f u v) :
    Rewrites ctx f (paragraphOf u) (paragraphOf v) := by
  have hclose : Rewrites ctx f ['\x7d'] ['\x7d'] := .kept (by decide)
  have hparagraph := Kind.paragraph.rewrites_block (h.append hclose)
  exact Kind.contents.rewrites_block (hparagraph.append hclose)

/-- A pass reads the code points. -/
theorem pass_yields (h : Spelled t u) (ctx : Context) :
    (Preprocess.pass ctx (paragraphOf u)).Yields (paragraphOf (Scheme.document.shield t)) := by
  have hshield := Spelled.shield t
  refine Preprocess.pass_yields h.noEscape_paragraphOf h.nested_paragraphOf
    hshield.noEscape_paragraphOf hshield.nested_paragraphOf (f := .codePoints) ?_ ?_ ?_
  · intro f hf
    exact rewrites_paragraphOf (h.waits ctx f hf)
  · exact rewrites_paragraphOf (h.decoded ctx)
  · intro f hf
    exact rewrites_paragraphOf (hshield.waits ctx f hf)

/-- The paragraph has a directive as long as what stands in it has one. -/
theorem hasDirective_of_paragraphOf (hresolved : (paragraphOf u).hasDirective = false) :
    u.hasDirective = false := by
  have hsplit : paragraphOf u = Kind.contents.word.toList ++ '\x7b' ::
      (Kind.paragraph.word.toList ++ '\x7b' :: (u ++ '\x7d' :: ['\x7d'])) := by
    simp [paragraphOf, Kind.block]
  have hopening : Text.IsBoundary '\x7b' := ⟨rfl, by decide⟩
  rw [hsplit, Text.hasDirective_append_cons hopening, Text.hasDirective_append_cons hopening,
    Text.hasDirective_append_cons Text.isBoundary_closing] at hresolved
  simp only [Bool.or_eq_false_iff] at hresolved
  exact hresolved.2.2.1

end Spelled

/-- However the characters of a text are spelled, a paragraph of the spellings is compiled to the
paragraph of the text. -/
theorem compile_spelled {ctx : Context} {t : Text} {us : List Text}
    (hspells : List.Forall₂ Spells t us) (hcollapse : ctx.settings.collapse = false)
    (hpatience : ctx.settings.maxPasses = 0 → 0 < ctx.patience) :
    (compile ctx ("main\x7btext\x7b".toList ++ us.flatten ++ "\x7d\x7d".toList)).result =
      .ok ("<html><body><p>".toList ++ t ++ "</p></body></html>".toList) := by
  obtain ⟨u, hprotects, hspelled⟩ := exists_spelled_flatten hspells
  have hsource : "main\x7btext\x7b".toList ++ us.flatten ++ "\x7d\x7d".toList =
      paragraphOf us.flatten := by
    simp [paragraphOf, Kind.block, Kind.word]
  have hhtml : Html.element "html" ((Outline.paragraph t).html fun t =>
      if ctx.settings.collapse then t.collapse else t) =
      "<html><body><p>".toList ++ t ++ "</p></body></html>".toList := by
    simp [Outline.paragraph, Outline.html, Kind.item, Kind.itemName?, Kind.elementName,
      Html.element, hcollapse]
  have hpass := hspelled.pass_yields ctx
  rw [← Outline.markup_paragraph] at hpass
  have hidle : (paragraphOf u).hasDirective = false →
      paragraphOf u = (Outline.paragraph t).markup := by
    intro hresolved
    have hu := hspelled.eq_shield (Spelled.hasDirective_of_paragraphOf hresolved)
    rw [Outline.markup_paragraph, hu]
  obtain ⟨s, hpreprocess, hs⟩ := Preprocess.source_of_pass (s := { progress := #[.preprocessing] })
    (Kind.contents.protects_block (Kind.paragraph.protects_block hprotects))
    hspelled.nested_paragraphOf hpass (Text.hasDirective_of_notMem (Outline.notMem_markup _))
    hidle hpatience rfl rfl
  rw [hsource, ← hhtml]
  exact Outline.compile_of_source hpreprocess hs

/-- Spellings that meet: an escaped full stop in front of a letter, and numbers with blanks and
zeros in them. -/
def spellingsThatMeet : List Text :=
  [['\\', '.'], ['m'], Directive.codePoint.written [[' '] ++ ['0', '7', 'b'] ++ ['\n']],
    Directive.codePoint.written [[] ++ ['0', '0', '0', '0', '4', '0'] ++ []], ['#']]

theorem compile_spelled_meeting :
    List.Forall₂ Spells ['.', 'm', '\x7b', '@', '#'] spellingsThatMeet ∧
      (compile { settings := { collapse := false, maxPasses := 1 } }
        "main\x7btext\x7b\\.m.unicode\x7b 07b\n\x7d.unicode\x7b000040\x7d#\x7d\x7d".toList).result =
      .ok "<html><body><p>.m\x7b@#</p></body></html>".toList := by
  have hspells : List.Forall₂ Spells ['.', 'm', '\x7b', '@', '#'] spellingsThatMeet := by
    refine .cons (.escaped (by decide)) (.cons (.plain (by decide)) (.cons ?_ (.cons ?_
      (.cons (.plain (by decide)) .nil))))
    · exact .numbered (List.all_eq_true.1 (by decide)) (List.all_eq_true.1 (by decide)) (by decide)
        (by decide) (by decide) (List.all_eq_true.1 (by decide))
    · exact .numbered (List.all_eq_true.1 (by decide)) (List.all_eq_true.1 (by decide)) (by decide)
        (by decide) (by decide) (List.all_eq_true.1 (by decide))
  have hsource :
      "main\x7btext\x7b\\.m.unicode\x7b 07b\n\x7d.unicode\x7b000040\x7d#\x7d\x7d".toList =
      "main\x7btext\x7b".toList ++ spellingsThatMeet.flatten ++ "\x7d\x7d".toList := by
    decide +kernel
  have hhtml : "<html><body><p>.m\x7b@#</p></body></html>".toList =
      "<html><body><p>".toList ++ ['.', 'm', '\x7b', '@', '#'] ++ "</p></body></html>".toList := by
    decide +kernel
  rw [hsource, hhtml]
  exact ⟨hspells, compile_spelled hspells rfl nofun⟩

end Bracemark
