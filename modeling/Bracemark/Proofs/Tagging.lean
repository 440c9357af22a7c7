import Bracemark.Proofs.LeafTexts
import Bracemark.Proofs.Tearing

/-!
# Tags of formats

A format of several styles nests their elements, the first one innermost (`Style.tagged`). Where it
transcribes, the transcription goes over the tags that are there by then. Outer tags are safe, as
what stands in them begins and ends with an angle bracket, so only the text itself matters, and only
if a tag comes before the transcription: it is torn out of the tags if it begins or ends with what a
rule takes together with an angle bracket (`Sampa.Torn`). Then fewer angle brackets are left than
the tags have, and otherwise the tags are as if the text had been transcribed first
(`format_tags`).
-/

namespace Bracemark

namespace Style

/-! ## Styles of a text without codes -/

/-- What a style makes of a text without codes. -/
def act (t : Text) (c : Char) : Text :=
  match ofSpecifier? c with
  | some (.element name) => wrap name t
  | some .phonetic => Sampa.transcribe t
  | none => t

/-- A text in the element that a character of a format names, if it names one. -/
def tag (t : Text) (c : Char) : Text :=
  match ofSpecifier? c with
  | some (.element name) => wrap name t
  | _ => t

/-- A text in the elements that a format names, the first one innermost. -/
def tagged (spec t : Text) : Text := spec.foldl tag t

variable {spec t u : Text} {c : Char} {name : String}

theorem isTag_of_ofSpecifier? (h : ofSpecifier? c = some (.element name)) :
    ∀ x ∈ name.toList, isTag x = true := by
  refine List.all_eq_true.1 ?_
  unfold ofSpecifier? at h
  split at h <;> cases h <;> decide

theorem deprotect_wrap (h : ofSpecifier? c = some (.element name)) (t : Text) :
    Scheme.document.deprotect (wrap name t) = wrap name (Scheme.document.deprotect t) := by
  have hname : '@' ∉ name.toList := fun hmem => by cases isTag_of_ofSpecifier? h _ hmem
  have hfence := (Html.Fence.element hname).deprotect_eq Scheme.document t []
  rwa [List.append_nil, show Scheme.document.deprotect [] = [] from rfl, List.append_nil] at hfence

/-- Taking the protection off goes through the styles. -/
theorem deprotect_put (t : Text) (c : Char) :
    Scheme.document.deprotect (put t c) = act (Scheme.document.deprotect t) c := by
  unfold put act
  cases h : ofSpecifier? c with
  | none => rfl
  | some style =>
    cases style with
    | element name => exact deprotect_wrap h t
    | phonetic => exact (Scheme.Restores.shield _).deprotect_eq

theorem deprotect_foldl_put (spec t : Text) : Scheme.document.deprotect (spec.foldl put t) =
    spec.foldl act (Scheme.document.deprotect t) := by
  induction spec generalizing t with
  | nil => rfl
  | cons c spec ih => rw [List.foldl_cons, List.foldl_cons, ih, deprotect_put]

/-! ## Transcribing between tags -/

theorem wrap_eq (name : String) (t : Text) :
    wrap name t = '<' :: name.toList ++ ['>'] ++ (t ++ '<' :: '/' :: (name.toList ++ ['>'])) := by
  simp [wrap, String.toList_append]

theorem isTag_opening (h : ofSpecifier? c = some (.element name)) :
    ∀ x ∈ '<' :: name.toList ++ ['>'], isTag x = true := by
  have hname := isTag_of_ofSpecifier? h
  simp only [List.cons_append, List.forall_mem_cons, List.forall_mem_append]
  exact ⟨rfl, hname, rfl, nofun⟩

theorem isTag_closing (h : ofSpecifier? c = some (.element name)) :
    ∀ x ∈ '<' :: '/' :: (name.toList ++ ['>']), isTag x = true := by
  have hname := isTag_of_ofSpecifier? h
  simp only [List.forall_mem_cons, List.forall_mem_append]
  exact ⟨rfl, rfl, hname, rfl, nofun⟩

/-- What stands in an element begins and ends with an angle bracket. -/
theorem not_torn_wrap (name : String) (t : Text) : ¬Sampa.Torn (wrap name t) := by
  have hend {e : String} (he : '>' ∉ e.toList) (hne : e.toList ≠ []) :
      ¬e.toList <:+ wrap name t := by
    intro hsuffix
    have hwrap : wrap name t =
        '<' :: name.toList ++ ['>'] ++ t ++ '<' :: '/' :: name.toList ++ ['>'] := by
      simp [wrap_eq]
    rw [hwrap, List.suffix_concat_iff] at hsuffix
    obtain ⟨x, hx, -⟩ := hsuffix.resolve_left hne
    exact he (hx ▸ by simp)
  have hends : ∀ e ∈ ["b_", "g_", "J\\_"] ++ ["d_", "G\\_"], '>' ∉ e.toList ∧ e.toList ≠ [] := by
    decide
  rintro (hfront | ⟨e, he, hsuffix⟩ | ⟨e, he, hsuffix, -⟩)
  · rw [wrap_eq] at hfront
    simp at hfront
  · obtain ⟨hangle, hne⟩ := hends e (List.mem_append_left _ he)
    exact hend hangle hne hsuffix
  · obtain ⟨hangle, hne⟩ := hends e (List.mem_append_right _ he)
    exact hend hangle hne hsuffix

theorem transcribe_wrap (h : ofSpecifier? c = some (.element name)) (ht : ¬Sampa.Torn t) :
    Sampa.transcribe (wrap name t) = wrap name (Sampa.transcribe t) := by
  rw [wrap_eq, Sampa.transcribe_between (isTag_opening h) (isTag_closing h) ht, wrap_eq]

theorem countP_transcribe_wrap_lt (h : ofSpecifier? c = some (.element name)) (ht : Sampa.Torn t) :
    (Sampa.transcribe (wrap name t)).countP isAngle < (wrap name t).countP isAngle := by
  rw [wrap_eq]
  rcases Sampa.torn_iff.1 ht with hfront | ⟨e, he, hend⟩
  · exact Sampa.countP_transcribe_lt_of_front (isTag_opening h)
      (hfront.trans (List.prefix_append ..))
  · have hmarks := Sampa.marks_spare_opening (isTag_opening h)
    rw [← List.append_assoc]
    refine Sampa.countP_transcribe_lt_of_end (isTag_closing h) he ?_
    rw [Sampa.final_rules.applyAll_append_left Sampa.marks_subset (List.forall_mem_nil _) hmarks
      (List.forall_mem_nil _)]
    exact hend.trans (List.suffix_append ..)

/-- A style that names no element is not seen in the tags. -/
theorem tag_cases (c : Char) :
    (∃ name, ofSpecifier? c = some (.element name) ∧ ∀ t, tag t c = wrap name t) ∨
      ∀ t, tag t c = t := by
  unfold tag
  cases h : ofSpecifier? c with
  | none => exact .inr fun _ => rfl
  | some style =>
    cases style with
    | element name => exact .inl ⟨name, rfl, fun _ => rfl⟩
    | phonetic => exact .inr fun _ => rfl

/-- A text that is not torn is transcribed by itself in any number of elements. -/
theorem transcribe_tagged (spec : Text) (ht : ¬Sampa.Torn t) :
    Sampa.transcribe (tagged spec t) = tagged spec (Sampa.transcribe t) := by
  unfold tagged
  induction spec generalizing t with
  | nil => rw [List.foldl_nil, List.foldl_nil]
  | cons c spec ih =>
    rw [List.foldl_cons, List.foldl_cons]
    rcases tag_cases c with ⟨name, hname, htag⟩ | htag
    · rw [htag, htag, ih (not_torn_wrap name t), transcribe_wrap hname ht]
    · rw [htag, htag, ih ht]

/-- The angle brackets of the tags come to those of the text. -/
theorem countP_tagged (spec t : Text) : (tagged spec t).countP isAngle =
    (tagged spec []).countP isAngle + t.countP isAngle := by
  unfold tagged
  induction spec generalizing t with
  | nil => exact (Nat.zero_add _).symm
  | cons c spec ih =>
    have htag : (tag t c).countP isAngle = (tag [] c).countP isAngle + t.countP isAngle := by
      rcases tag_cases c with ⟨name, -, htag⟩ | htag
      · rw [htag, htag]
        simp only [wrap, List.countP_append, List.countP_nil]
        omega
      · rw [htag, htag, List.countP_nil, Nat.zero_add]
    rw [List.foldl_cons, List.foldl_cons, ih, ih (tag [] c), htag, Nat.add_assoc]

/-- A text that is torn takes an angle bracket of the innermost element away. -/
theorem countP_transcribe_tagged_lt (rest : Text) (h : ofSpecifier? c = some (.element name))
    (ht : Sampa.Torn t) : (Sampa.transcribe (tagged (c :: rest) t)).countP isAngle <
      (tagged (c :: rest) t).countP isAngle := by
  have htag : tagged (c :: rest) t = tagged rest (wrap name t) := by
    rw [tagged, List.foldl_cons, tag, h]
    rfl
  rw [htag, transcribe_tagged rest (not_torn_wrap name t), countP_tagged,
    countP_tagged rest (wrap name t)]
  exact Nat.add_lt_add_left (countP_transcribe_wrap_lt h ht) _

/-! ## Formats -/

theorem exists_element (h : c ∈ specifiers) (hc : c ≠ 'x') :
    ∃ name, ofSpecifier? c = some (.element name) := by
  simp only [specifiers, List.mem_cons, List.not_mem_nil, or_false] at h
  rcases h with rfl | rfl | rfl | rfl | rfl | rfl
  all_goals first | exact ⟨_, rfl⟩ | exact absurd rfl hc

theorem act_eq_tag (hc : c ≠ 'x') (t : Text) : act t c = tag t c := by
  unfold act tag
  cases h : ofSpecifier? c with
  | none => rfl
  | some style =>
    cases style with
    | element name => rfl
    | phonetic =>
      have hx : c = 'x' := by
        unfold ofSpecifier? at h
        split at h <;> first | rfl | cases h
      exact absurd hx hc

theorem foldl_act (h : 'x' ∉ spec) (t : Text) : spec.foldl act t = tagged spec t := by
  unfold tagged
  induction spec generalizing t with
  | nil => rfl
  | cons c spec ih =>
    have hc : c ≠ 'x' := fun heq => h (heq ▸ List.mem_cons_self)
    rw [List.foldl_cons, List.foldl_cons, act_eq_tag hc, ih (mt (List.mem_cons_of_mem c) h)]

/-- A format transcribes what the styles in front have made, and the others come around it. -/
theorem foldl_act_phonetic {before behind : Text} (hbefore : 'x' ∉ before) (hbehind : 'x' ∉ behind)
    (t : Text) : (before ++ 'x' :: behind).foldl act t =
      tagged behind (Sampa.transcribe (tagged before t)) := by
  rw [List.foldl_append, List.foldl_cons, foldl_act hbefore, foldl_act hbehind]
  rfl

theorem tagged_append (before behind t : Text) :
    tagged (before ++ 'x' :: behind) t = tagged behind (tagged before t) := by
  unfold tagged
  rw [List.foldl_append, List.foldl_cons]
  rfl

/-- The text that stands in the elements of a format. -/
def body (spec t : Text) : Text := if 'x' ∈ spec then Sampa.transcribe t else t

theorem countP_body_le (spec t : Text) : (body spec t).countP isAngle ≤ t.countP isAngle := by
  unfold body
  split
  · exact Sampa.countP_transcribe_le t
  · exact Nat.le_refl _

/-- What is in the elements is torn out of them if a style comes before the transcription. -/
def Tears (spec t : Text) : Prop := 'x' ∈ spec.tail ∧ Sampa.Torn t

instance (spec t : Text) : Decidable (Tears spec t) := inferInstanceAs (Decidable (_ ∧ _))

/-- A format that does not tear gives its tags around the text. -/
theorem foldl_act_of_not_tears (hnodup : spec.Nodup) (h : ¬Tears spec t) :
    spec.foldl act t = tagged spec (body spec t) := by
  unfold body
  by_cases hx : 'x' ∈ spec
  · obtain ⟨before, behind, rfl⟩ := List.append_of_mem hx
    obtain ⟨-, hbehind, hdisjoint⟩ := List.nodup_append.1 hnodup
    have hbefore : 'x' ∉ before := fun hmem => hdisjoint _ hmem _ List.mem_cons_self rfl
    rw [if_pos hx, foldl_act_phonetic hbefore (List.nodup_cons.1 hbehind).1, tagged_append]
    cases before with
    | nil =>
      have hnil (t : Text) : tagged [] t = t := rfl
      rw [hnil, hnil]
    | cons c rest =>
      have htorn : ¬Sampa.Torn t := fun htorn => h ⟨by simp, htorn⟩
      rw [transcribe_tagged _ htorn]
  · rw [if_neg hx, foldl_act hx]

/-- A format that tears leaves fewer angle brackets than its tags have. -/
theorem countP_foldl_act_lt (hspec : ∀ c ∈ spec, c ∈ specifiers) (hnodup : spec.Nodup)
    (h : Tears spec t) (ht : t.countP isAngle = 0) :
    (spec.foldl act t).countP isAngle < (tagged spec []).countP isAngle := by
  obtain ⟨hx, htorn⟩ := h
  cases spec with
  | nil => cases hx
  | cons c rest =>
    obtain ⟨between, behind, rfl⟩ := List.append_of_mem (show 'x' ∈ rest from hx)
    rw [← List.cons_append] at hnodup ⊢
    obtain ⟨-, hbehind, hdisjoint⟩ := List.nodup_append.1 hnodup
    have hbefore : 'x' ∉ c :: between := fun hmem => hdisjoint _ hmem _ List.mem_cons_self rfl
    obtain ⟨name, hname⟩ := exists_element (hspec c List.mem_cons_self)
      fun heq => hbefore (heq ▸ List.mem_cons_self)
    have hfewer := countP_transcribe_tagged_lt between hname htorn
    rw [countP_tagged _ t, ht] at hfewer
    rw [foldl_act_phonetic hbefore (List.nodup_cons.1 hbehind).1, tagged_append, countP_tagged,
      countP_tagged behind (tagged _ [])]
    omega

end Style

/-- Restoring a text puts in no characters but those that can be escaped. -/
theorem Scheme.mem_deprotect {t : Text} {c : Char} (h : c ∈ document.deprotect t) :
    c ∈ t ∨ c ∈ Text.marked := by
  obtain ⟨k, hk, hc⟩ := List.mem_flatMap.1 h
  cases k with
  | plain x =>
    obtain rfl := List.mem_singleton.1 hc
    refine .inl ?_
    rw [← Chunk.flatMap_written t]
    exact List.mem_flatMap.2 ⟨_, hk, List.mem_singleton_self c⟩
  | code g =>
    have hmem : c ∈ document.tags.map Prod.fst := by
      obtain ⟨entry, hentry, rfl⟩ := Option.map_eq_some_iff.1 (Option.mem_toList.1 hc)
      exact List.mem_map_of_mem (List.mem_of_find?_eq_some hentry)
    exact .inr hmem

/-- The deprotected result of a format: the text, transcribed if the format asks for that, in the
elements that the format names, the first one innermost, with no angle bracket in it. There is one
exception: the text is torn out of its tags, and a style comes before the transcription. Then no
text in the elements is the result. -/
theorem format_tags (ctx : Context) (line : Nat) {spec t : Text} (s : RunState)
    (hspec : ∀ c ∈ spec, c ∈ Style.specifiers) (hnodup : spec.Nodup) (hopening : '<' ∉ t)
    (hclosing : '>' ∉ t) :
    ∃ u s', Style.applyAll ctx line [] spec t s = .ok u s' ∧
      '<' ∉ Style.body spec (Scheme.document.deprotect t) ∧
      '>' ∉ Style.body spec (Scheme.document.deprotect t) ∧
      (¬Style.Tears spec (Scheme.document.deprotect t) → Scheme.document.deprotect u =
        Style.tagged spec (Style.body spec (Scheme.document.deprotect t))) ∧
      (Style.Tears spec (Scheme.document.deprotect t) →
        ∀ v, Scheme.document.deprotect u ≠ Style.tagged spec v) := by
  obtain ⟨s', hrun⟩ := Style.applyAll_eq_ok ctx line hspec hnodup (fun _ _ => List.not_mem_nil) t s
  have hplain : (Scheme.document.deprotect t).countP isAngle = 0 := by
    refine List.countP_eq_zero.2 fun c hc hangle => ?_
    have hmarked : (Text.marked.all fun c => !isAngle c) = true := by decide
    rcases Scheme.mem_deprotect hc with hc | hc
    · obtain rfl | rfl : c = '<' ∨ c = '>' := by simpa [isAngle] using hangle
      · exact hopening hc
      · exact hclosing hc
    · have hplain := List.all_eq_true.1 hmarked c hc
      rw [hangle] at hplain
      cases hplain
  have hbody := Nat.eq_zero_of_le_zero
    (Nat.le_trans (Style.countP_body_le spec _) (Nat.le_of_eq hplain))
  rw [List.countP_eq_zero] at hbody
  refine ⟨_, s', hrun, fun h => hbody _ h rfl, fun h => hbody _ h rfl, fun h => ?_,
    fun h v heq => ?_⟩
  · rw [Style.deprotect_foldl_put, Style.foldl_act_of_not_tears hnodup h]
  · have hfew := Style.countP_foldl_act_lt hspec hnodup h hplain
    rw [← Style.deprotect_foldl_put, heq, Style.countP_tagged] at hfew
    omega

/-- Behind a code, a text that ends in a stem whose letter is taken as a mark: its tags are whole. -/
theorem format_tags_mark :
    (['_', 'x', 'b'] ⊆ Style.specifiers ∧ ['_', 'x', 'b'].Nodup ∧
      '<' ∉ "@#\x27:[;:LB]_d_".toList ∧ '>' ∉ "@#\x27:[;:LB]_d_".toList) ∧
    ∃ u s', Style.applyAll {} 1 [] ['_', 'x', 'b'] "@#\x27:[;:LB]_d_".toList {} = .ok u s' ∧
      Scheme.document.deprotect u = "<b><sub>æ\u032a_</sub></b>".toList := by
  have hspec : ['_', 'x', 'b'] ⊆ Style.specifiers := by simp [Style.specifiers]
  have hopening : '<' ∉ "@#\x27:[;:LB]_d_".toList := by decide
  have hclosing : '>' ∉ "@#\x27:[;:LB]_d_".toList := by decide
  obtain ⟨u, s', hrun, -, -, htags, -⟩ := format_tags {} 1 {} hspec (by decide) hopening hclosing
  have hbody : Style.tagged ['_', 'x', 'b'] (Style.body ['_', 'x', 'b']
      (Scheme.document.deprotect "@#\x27:[;:LB]_d_".toList)) =
        "<b><sub>æ\u032a_</sub></b>".toList := by decide +kernel
  exact ⟨⟨hspec, by decide, hopening, hclosing⟩, u, s', hrun,
    (htags (by decide +kernel)).trans hbody⟩

/-- The sign of an implosive is made of the end of the text and the beginning of its closing tag. -/
theorem format_tears :
    (['b', 'x'] ⊆ Style.specifiers ∧ ['b', 'x'].Nodup ∧
      '<' ∉ "b_".toList ∧ '>' ∉ "b_".toList) ∧
    (∃ u s', Style.applyAll {} 1 [] ['b', 'x'] "b_".toList {} = .ok u s' ∧
      ∀ v, Scheme.document.deprotect u ≠ Style.tagged ['b', 'x'] v) ∧
    ∃ s', preprocess {} ".format\x7bbx\x7d\x7bb_\x7d".toList = .ok "<b>ɓ/b>".toList s' := by
  obtain ⟨s', hrun⟩ := Run.exists_of_value? (r := Style.applyAll {} 1 [] ['b', 'x'] "b_".toList {})
    (a := "<b>ɓ/b>".toList) (by decide +kernel)
  have hspec : ['b', 'x'] ⊆ Style.specifiers := by simp [Style.specifiers]
  refine ⟨⟨hspec, by decide, by decide, by decide⟩, ⟨_, s', hrun, fun v heq => ?_⟩,
    Run.exists_of_value? (by decide +kernel)⟩
  have hcount := congrArg (List.countP isAngle) heq
  have hleft : (Scheme.document.deprotect "<b>ɓ/b>".toList).countP isAngle = 3 := by decide +kernel
  have hright : (Style.tagged ['b', 'x'] []).countP isAngle = 4 := by decide
  rw [Style.countP_tagged, hleft, hright] at hcount
  omega

end Bracemark
