import Mathlib.Data.Bool.AllAny
import Bracemark.Proofs.Decoding
import Bracemark.Proofs.Inclusion
import Bracemark.Proofs.Outline

/-!
# Tables

Items of any characters survive the way from a table file into a document (`compile_table`). On the
way, two schemes read the same backslashes. The scheme of tables takes every backslash along with
the character behind it and codes the separators among them, so rows and items end where they were
ended. When the separators are restored, the items are left as a document escapes them: no code
begins in an item unless the scheme has put it there, since every closing bracket stands behind a
backslash.
-/

namespace Bracemark

/-! ## Written tables -/

namespace Table

/-- The characters of an item that have a backslash in a file: separators of tables, and what
documents escape. -/
def marked : Text := ['&', '$', '\x7b', '\x7d', '\\', '.', '@', ']']

def escapedChar (c : Char) : Text := if c ∈ marked then ['\\', c] else [c]

def escaped (t : Text) : Text := t.flatMap escapedChar

/-- Rows with their items written by `f`: an ampersand behind each item and a dollar sign behind
each row. -/
def write (f : Text → Text) (rows : List (List Text)) : Text :=
  rows.flatMap fun row => (row.flatMap fun item => f item ++ ['&']) ++ ['$']

/-- Rows as a table file has them. -/
def source (rows : List (List Text)) : Text := write escaped rows

theorem write_row (f : Text → Text) (rows : List (List Text)) :
    write f ([] :: rows) = '$' :: write f rows := rfl

theorem write_item (f : Text → Text) (item : Text) (row : List Text) (rows : List (List Text)) :
    write f ((item :: row) :: rows) = f item ++ '&' :: write f (row :: rows) := by
  simp only [write, List.flatMap_cons, List.append_assoc, List.cons_append, List.nil_append]

/-- Rows are written one item and one end of a row at a time. -/
theorem rows_induction {motive : List (List Text) → Prop} (nil : motive [])
    (row : ∀ rows, motive rows → motive ([] :: rows))
    (item : ∀ item row rows, motive (row :: rows) → motive ((item :: row) :: rows)) :
    ∀ rows, motive rows := by
  intro rows
  induction rows with
  | nil => exact nil
  | cons r rows ih =>
    induction r with
    | nil => exact row rows ih
    | cons t r ihr => exact item t r rows ihr

/-! ## Line ends -/

theorem unixLines_escaped (t : Text) : (escaped t).unixLines = escaped t.unixLines := by
  refine Text.unixLines_flatMap rfl rfl (fun c hr hn => ?_) t
  unfold escapedChar
  split
  · exact ⟨'\\', [c], rfl, by decide, by simp [Ne.symm hr]⟩
  · exact ⟨c, [], rfl, hn, by simp [Ne.symm hr]⟩

theorem unixLines_source (rows : List (List Text)) :
    (source rows).unixLines = source (rows.map (List.map Text.unixLines)) := by
  unfold source
  induction rows using rows_induction with
  | nil => rfl
  | row rows ih =>
    rw [write_row, Text.unixLines_cons (by decide), ih, List.map_cons, List.map_nil, write_row]
  | item item row rows ih =>
    rw [write_item, Text.unixLines_append_cons (by decide) (by decide), unixLines_escaped, ih,
      List.map_cons, List.map_cons, List.map_cons, write_item]

/-! ## Protected separators -/

/-- A character of an item while its separators are protected. -/
def protectedChar (c : Char) : Text :=
  if c ∈ marked then Scheme.table.protectPiece (.escaped c) else [c]

def protectedItem (t : Text) : Text := t.flatMap protectedChar

theorem protect_cons {c : Char} (hc : c ≠ '\\') (rest : Text) :
    Scheme.table.protect (c :: rest) = c :: Scheme.table.protect rest := by
  have hcut : Piece.ofText (c :: rest) = .plain c :: Piece.ofText rest := Piece.cuts_plain hc rest
  unfold Scheme.protect
  rw [hcut]
  rfl

theorem protect_escaped (t rest : Text) :
    Scheme.table.protect (escaped t ++ rest) = protectedItem t ++ Scheme.table.protect rest := by
  have hcuts : Cuts Piece.step (escaped t)
      (t.flatMap fun c => if c ∈ marked then [.escaped c] else [.plain c]) := by
    refine Cuts.flatMap fun c _ => ?_
    unfold escapedChar
    split
    · exact Piece.cuts_escaped c
    · rename_i hc
      exact Piece.cuts_plain fun heq => hc (heq ▸ by decide)
  unfold Scheme.protect Piece.ofText protectedItem
  rw [hcuts, List.flatMap_append, List.flatMap_assoc]
  refine congrArg (· ++ _) (congrArg t.flatMap (funext fun c => ?_))
  unfold protectedChar
  split
  · exact List.flatMap_singleton _ _
  · rfl

theorem protect_source (rows : List (List Text)) :
    Scheme.table.protect (source rows) = write protectedItem rows := by
  unfold source
  induction rows using rows_induction with
  | nil => rfl
  | row rows ih => rw [write_row, protect_cons (by decide), ih, write_row]
  | item item row rows ih =>
    rw [write_item, protect_escaped, protect_cons (by decide), ih, write_item]

/-! ## Rows and items -/

def read (r : Reading) (t : Text) : Reading := (Lexer.table.lexemes t).foldl Reading.step r

/-- Whether a character separates items or rows. -/
def isSeparator (c : Char) : Bool := c = '&' || c = '$'

theorem read_item {u : Text} (hu : ∀ c ∈ u, isSeparator c = false) (r : Reading) (rest : Text) :
    read r (u ++ '&' :: rest) = read { r with row := r.row ++ [r.item ++ u], item := [] } rest := by
  have hend (r : Reading) : read r ('&' :: rest) =
      read { r with row := r.row ++ [r.item], item := [] } rest := by
    unfold read
    rw [Lexer.lexemes_cons]
    rfl
  cases u with
  | nil => rw [List.nil_append, hend, List.append_nil]
  | cons c u =>
    obtain ⟨hc, hu⟩ := List.forall_mem_cons.1 hu
    have hitem : ∀ d ∈ u, (!(d = '&' || d = '$')) = true := fun d hd => congrArg (!·) (hu d hd)
    have hrun : (u ++ '&' :: rest).takeWhile (fun d => !(d = '&' || d = '$')) = u := by
      rw [List.takeWhile_append_of_pos hitem, List.takeWhile_cons_of_neg (by decide),
        List.append_nil]
    have hlexer : Lexer.table c (u ++ '&' :: rest) = (.other, u.length) := by
      unfold isSeparator at hc
      rw [Bool.or_eq_false_iff, decide_eq_false_iff_not, decide_eq_false_iff_not] at hc
      unfold Lexer.table
      rw [if_neg hc.1, if_neg hc.2, hrun]
    unfold read
    rw [List.cons_append, Lexer.lexemes_cons, hlexer, List.foldl_cons]
    simp only [List.take_left, List.drop_left]
    exact hend _

theorem read_row (rows : List (List Text)) (row : List Text) (rest : Text) :
    read ⟨rows, row, []⟩ ('$' :: rest) = read ⟨rows ++ [row], [], []⟩ rest := by
  unfold read
  rw [Lexer.lexemes_cons]
  rfl

variable {f : Text → Text}

theorem read_write_row (hf : ∀ t, ∀ c ∈ f t, isSeparator c = false) (before : List (List Text))
    (first row : List Text) (rows : List (List Text)) :
    read ⟨before, first, []⟩ (write f (row :: rows)) =
      read ⟨before ++ [first ++ row.map f], [], []⟩ (write f rows) := by
  induction row generalizing first with
  | nil => rw [write_row, read_row, List.map_nil, List.append_nil]
  | cons item row ih =>
    rw [write_item, read_item (hf item), List.nil_append, ih, List.append_assoc,
      List.singleton_append, List.map_cons]

/-- The rows and items of a written table are those that were written. -/
theorem rows_write (hf : ∀ t, ∀ c ∈ f t, isSeparator c = false) (written : List (List Text)) :
    rows (write f written) = written.map (List.map f) := by
  have hread (before : List (List Text)) :
      read ⟨before, [], []⟩ (write f written) = ⟨before ++ written.map (List.map f), [], []⟩ := by
    induction written generalizing before with
    | nil => rw [List.map_nil, List.append_nil]; rfl
    | cons row written ih =>
      rw [read_write_row hf, ih, List.append_assoc, List.nil_append, List.singleton_append,
        List.map_cons]
  have hrows : rows (write f written) = (read {} (write f written)).finish := rfl
  rw [hrows, hread, List.nil_append]
  rfl

theorem isSeparator_of_mem_protectedItem {t : Text} {c : Char} (hc : c ∈ protectedItem t) :
    isSeparator c = false := by
  obtain ⟨d, -, hd⟩ := List.mem_flatMap.1 hc
  by_cases hmarked : d ∈ marked
  · have hall : ∀ d ∈ marked, (protectedChar d).any isSeparator = false :=
      List.all_iff_forall_prop.1 (by decide)
    exact Bool.eq_false_iff.2 (List.any_eq_false.1 (hall d hmarked) c hd)
  · rw [protectedChar, if_neg hmarked, List.mem_singleton] at hd
    rw [hd, isSeparator, Bool.or_eq_false_iff, decide_eq_false_iff_not, decide_eq_false_iff_not]
    constructor
    · rintro rfl
      exact hmarked (by decide)
    · rintro rfl
      exact hmarked (by decide)

/-! ## Restored separators -/

/-- A character in front of which the rest of a code cannot have come to its end. -/
def isStray (c : Char) : Bool := !(c = '\\' || c = '@' || c = '\x7d')

theorem isStray_of_mayEnd {c : Char} (h : Tag.mayEnd c = true) : isStray c = true := by
  cases hc : isStray c with
  | true => rfl
  | false =>
    have hstop : c = '\\' ∨ c = '@' ∨ c = '\x7d' := by
      simpa [isStray, or_assoc, imp_iff_not_or] using hc
    rcases hstop with rfl | rfl | rfl
    all_goals cases h

/-- No code begins if no bracket closes it before a character that no code holds. -/
theorem step_of_stray {rest : Text} (h : ']' ∉ rest.takeWhile isStray) (c : Char) :
    Chunk.step c rest = (.plain c, 0) := by
  unfold Chunk.step
  split
  · rename_i a b more
    split
    · rename_i htag
      rw [Bool.and_eq_true] at htag
      have ha : Tag.mayEnd a = true := by
        unfold Tag.mayBegin at htag
        rw [Tag.mayEnd, htag.1, Bool.true_or, Bool.true_or]
      have hcode : ∀ x ∈ ['#', '\x27', ':', '[', ';', ':', a, b, ']'], isStray x = true := by
        simp only [List.forall_mem_cons, List.not_mem_nil, false_imp_iff, implies_true, and_true]
        exact ⟨rfl, rfl, rfl, rfl, rfl, rfl, isStray_of_mayEnd ha, isStray_of_mayEnd htag.2, rfl⟩
      have hrun : ']' ∈ (['#', '\x27', ':', '[', ';', ':', a, b, ']'] ++ more).takeWhile isStray := by
        rw [List.takeWhile_append_of_pos hcode]
        simp
      exact absurd hrun h
    · rfl
  · rfl

/-- In an item every closing bracket stands behind a backslash or ends a code. -/
theorem bracket_notMem_stray (t post : Text) :
    ']' ∉ (protectedItem t ++ '\x7d' :: post).takeWhile isStray := by
  induction t with
  | nil => exact List.not_mem_nil
  | cons c t ih =>
    have hsplit : protectedItem (c :: t) = protectedChar c ++ protectedItem t := List.flatMap_cons
    rw [hsplit, List.append_assoc]
    by_cases hmarked : c ∈ marked
    · have hall : ∀ c ∈ marked, (protectedChar c).head?.map isStray = some false :=
        List.all_iff_forall_prop.1 (by decide)
      have hhead := hall c hmarked
      cases hchar : protectedChar c with
      | nil =>
        rw [hchar] at hhead
        cases hhead
      | cons x w =>
        rw [hchar, List.head?_cons, Option.map_some, Option.some_inj] at hhead
        rw [List.cons_append, List.takeWhile_cons_of_neg (Bool.eq_false_iff.1 hhead)]
        exact List.not_mem_nil
    · rw [protectedChar, if_neg hmarked, List.singleton_append, List.takeWhile_cons]
      split
      · rw [List.mem_cons, not_or]
        refine ⟨?_, ih⟩
        rintro rfl
        exact hmarked (by decide)
      · exact List.not_mem_nil

/-- The chunks of a character of an item while its separators are protected. -/
def chunks (c : Char) : List Chunk :=
  if c ∈ marked then
    match Scheme.table.tag? c with
    | some g => [.code g]
    | none => [.plain '\\', .plain c]
  else [.plain c]

/-- The chunks of an item up to the brace that closes it. -/
theorem cuts_protectedItem (t : Text) :
    Cuts Chunk.step (protectedItem t ++ ['\x7d']) (t.flatMap chunks ++ [.plain '\x7d']) := by
  induction t with
  | nil => exact .single (Chunk.step_of_ne (by decide))
  | cons c t ih =>
    have hsplit : protectedItem (c :: t) = protectedChar c ++ protectedItem t := List.flatMap_cons
    have hplain : Cuts Chunk.step (c :: (protectedItem t ++ ['\x7d']))
        (.plain c :: (t.flatMap chunks ++ [.plain '\x7d'])) := by
      intro post
      have hstray := bracket_notMem_stray t post
      rw [List.cons_append, segment_zero_cons, step_of_stray, List.drop_zero, ih post]
      · rfl
      · rwa [List.append_assoc]
    rw [hsplit, List.flatMap_cons, List.append_assoc, List.append_assoc, protectedChar, chunks]
    by_cases hmarked : c ∈ marked
    · rw [if_pos hmarked, if_pos hmarked, Scheme.protectPiece]
      cases htag : Scheme.table.tag? c with
      | none =>
        have hbackslash : Cuts Chunk.step ['\\'] [.plain '\\'] :=
          .single (Chunk.step_of_ne (by decide))
        exact hbackslash.append hplain
      | some g =>
        have htags : ∀ e ∈ Scheme.table.tags,
            Tag.mayBegin e.2.first = true ∧ Tag.mayEnd e.2.second = true := by decide
        obtain ⟨hfirst, hsecond⟩ := htags _ (Scheme.mem_tags_of_tag? htag)
        exact (Chunk.cuts_code hfirst hsecond).append ih
    · rw [if_neg hmarked, if_neg hmarked]
      exact hplain

theorem deprotect_chunks (t : Text) :
    (t.flatMap chunks).flatMap Scheme.table.deprotectChunk = Scheme.document.escape t := by
  rw [List.flatMap_assoc]
  refine congrArg t.flatMap (funext fun c => ?_)
  by_cases hmarked : c ∈ marked
  · have hall : ∀ c ∈ marked, (chunks c).flatMap Scheme.table.deprotectChunk =
        if (Scheme.document.tag? c).isSome then ['\\', c] else [c] :=
      List.all_iff_forall_prop.1 (by decide)
    exact hall c hmarked
  · have htag : Scheme.document.tag? c = none := by
      cases hg : Scheme.document.tag? c with
      | none => rfl
      | some g =>
        have htags : ∀ e ∈ Scheme.document.tags, e.1 ∈ marked := by decide
        exact absurd (htags _ (Scheme.mem_tags_of_tag? hg)) hmarked
    rw [chunks, if_neg hmarked, htag]
    rfl

theorem block_eq (word : Kind) (interior : Text) : block word interior = word.block interior := by
  simp only [block, Kind.block, List.append_assoc, List.cons_append]

theorem restores_block (word : Kind) {u v : Text} (h : Scheme.table.Restores u v) :
    Scheme.table.Restores (block word u) (block word v) := by
  have hword : '@' ∉ word.word.toList ++ ['\x7b'] := by cases word <;> decide
  have hopened := (Scheme.Restores.of_notMem hword).append h
  have hclosed := hopened.append (.of_notMem (u := ['\x7d']) (by decide))
  simpa only [block, List.append_assoc, List.cons_append, List.nil_append] using hclosed

theorem restores_item (t : Text) : Scheme.table.Restores (block .paragraph (protectedItem t))
    (block .paragraph (Scheme.document.escape t)) := by
  have hclosed : Scheme.table.Restores (protectedItem t ++ ['\x7d'])
      (Scheme.document.escape t ++ ['\x7d']) := by
    refine ⟨_, cuts_protectedItem t, ?_⟩
    rw [List.flatMap_append, deprotect_chunks]
    rfl
  have hword : '@' ∉ Kind.paragraph.word.toList ++ ['\x7b'] := by decide
  have hblock := (Scheme.Restores.of_notMem hword).append hclosed
  simpa only [block, List.append_assoc, List.cons_append, List.nil_append] using hblock

theorem restores_markup (rows : List (List Text)) :
    Scheme.table.Restores (markup (rows.map (List.map protectedItem)))
      (markup (rows.map (List.map Scheme.document.escape))) := by
  unfold markup
  rw [List.flatMap_map, List.flatMap_map]
  refine restores_block _ (.flatMap fun row _ => restores_block _ ?_)
  rw [List.flatMap_map, List.flatMap_map]
  exact .flatMap fun item _ => restores_item item

/-! ## Blanks -/

theorem collapse_block (word : Kind) (u v : Text) :
    Text.collapse (block word u ++ v) = block word u.collapse ++ v.collapse := by
  have hword : ∀ c ∈ word.word.toList ++ ['\x7b'], isBlank c = false :=
    List.all_iff_forall_prop.1 (by cases word <;> decide)
  have hsplit (u : Text) : block word u ++ v =
      (word.word.toList ++ ['\x7b']) ++ (u ++ '\x7d' :: v) := by
    simp only [block, List.append_assoc, List.cons_append, List.nil_append]
  rw [hsplit, Text.collapse_append hword, Text.collapse_append_cons rfl]
  simp only [block, List.append_assoc, List.cons_append, List.nil_append]

theorem collapse_blocks {α : Type} (word : Kind) (f : α → Text) (l : List α) :
    Text.collapse (l.flatMap fun x => block word (f x)) =
      l.flatMap fun x => block word (f x).collapse := by
  induction l with
  | nil => rfl
  | cons x l ih => rw [List.flatMap_cons, collapse_block, ih, List.flatMap_cons]

theorem collapse_markup (rows : List (List Text)) :
    Text.collapse (markup rows) = markup (rows.map (List.map Text.collapse)) := by
  have hitems (row : List Text) : Text.collapse (row.flatMap (block .paragraph)) =
      (row.map Text.collapse).flatMap (block .paragraph) := by
    rw [List.flatMap_map]
    exact collapse_blocks .paragraph id row
  have hwhole := collapse_block .table
    (rows.flatMap fun row => block .row (row.flatMap (block .paragraph))) []
  rw [List.append_nil, collapse_blocks] at hwhole
  unfold markup
  rw [hwhole, List.flatMap_map]
  simp only [hitems]
  exact List.append_nil _

theorem collapse_escape (t : Text) :
    Text.collapse (Scheme.document.escape t) = Scheme.document.escape t.collapse := by
  refine Text.collapse_flatMap (fun c hc => ?_) (fun c hc => ?_) t
  · rw [Scheme.tag?_of_isBlank hc]
    rfl
  · split
    · refine ⟨by simp, ?_⟩
      simp [hc]
      rfl
    · simp [hc]

/-- What a table file becomes: every item with its blanks collapsed, as a document writes it. -/
theorem convert_source (rows : List (List Text)) : convert (source rows).unixLines =
    markup (rows.map (List.map fun item => Scheme.document.escape item.collapse)) := by
  have hitem : ∀ t, ∀ c ∈ protectedItem t, isSeparator c = false := fun _ _ =>
    isSeparator_of_mem_protectedItem
  unfold convert protectedMarkup
  rw [unixLines_source, protect_source, rows_write hitem, (restores_markup _).deprotect_eq,
    collapse_markup]
  refine congrArg markup ?_
  rw [List.map_map, List.map_map]
  refine List.map_congr_left fun row _ => ?_
  simp only [Function.comp_apply, List.map_map]
  refine List.map_congr_left fun item _ => ?_
  simp only [Function.comp_apply, collapse_escape, Text.collapse_unixLines]

/-! ## Tables in documents -/

/-- A row of items, each a paragraph. -/
def rowOutline : List Text → Outline .row
  | [] => .done
  | item :: row => .leaf .paragraph rfl rfl item (rowOutline row)

def rowsOutline : List (List Text) → Outline .table
  | [] => .done
  | row :: rows => .container .row rfl rfl (rowOutline row) (rowsOutline rows)

/-- A document that holds a table and nothing else. -/
def outline (rows : List (List Text)) : Outline .root :=
  .container .contents rfl rfl (.container .table rfl rfl (rowsOutline rows) .done) .done

theorem write_rowOutline (f : Text → Text) (row : List Text) :
    (rowOutline row).write f = (row.map f).flatMap (block .paragraph) := by
  induction row with
  | nil => rfl
  | cons item row ih =>
    have hwrite : (rowOutline (item :: row)).write f =
        Kind.paragraph.block (f item) ++ (rowOutline row).write f := rfl
    rw [hwrite, ih, List.map_cons, List.flatMap_cons, block_eq]

theorem write_rowsOutline (f : Text → Text) (rows : List (List Text)) :
    (rowsOutline rows).write f =
      (rows.map (List.map f)).flatMap fun row => block .row (row.flatMap (block .paragraph)) := by
  induction rows with
  | nil => rfl
  | cons row rows ih =>
    have hwrite : (rowsOutline (row :: rows)).write f =
        Kind.row.block ((rowOutline row).write f) ++ (rowsOutline rows).write f := rfl
    rw [hwrite, ih, write_rowOutline, List.map_cons, List.flatMap_cons, block_eq]

theorem source_outline (rows : List (List Text)) : (outline rows).source =
    Kind.contents.block (markup (rows.map (List.map Scheme.document.escape))) := by
  have hescaped : Text.escaped = Scheme.document.escape := funext Text.escaped_eq
  unfold outline Outline.source markup
  simp only [Outline.write, List.append_nil, write_rowsOutline, block_eq, hescaped]

/-- The HTML of rows, with blanks collapsed in every item. -/
def html (rows : List (List Text)) : Text :=
  Html.element "html" <| Html.element "body" <| Html.element "table" <|
    rows.flatMap fun row => Html.element "tr" <|
      row.flatMap fun item => Html.element "td" <| Html.element "p" item.collapse

theorem html_rowOutline (g : Text → Text) (row : List Text) :
    (rowOutline row).html g =
      row.flatMap fun item => Html.element "td" (Html.element "p" (g item)) := by
  induction row with
  | nil => rfl
  | cons item row ih =>
    have hhtml : (rowOutline (item :: row)).html g =
        Html.element "td" (Html.element "p" (g item)) ++ (rowOutline row).html g := rfl
    rw [hhtml, ih, List.flatMap_cons]

theorem html_rowsOutline (g : Text → Text) (rows : List (List Text)) :
    (rowsOutline rows).html g = rows.flatMap fun row => Html.element "tr" <|
      row.flatMap fun item => Html.element "td" <| Html.element "p" (g item) := by
  induction rows with
  | nil => rfl
  | cons row rows ih =>
    have hhtml : (rowsOutline (row :: rows)).html g =
        Html.element "tr" ((rowOutline row).html g) ++ (rowsOutline rows).html g := rfl
    rw [hhtml, ih, html_rowOutline, List.flatMap_cons]

/-- Whether or not the parser collapses blanks makes no difference to collapsed items. -/
theorem html_outline (collapse : Bool) (rows : List (List Text)) :
    Html.element "html" ((outline (rows.map (List.map Text.collapse))).html fun t =>
      if collapse then t.collapse else t) = html rows := by
  have hdata (item : Text) :
      (if collapse then Text.collapse item.collapse else item.collapse) = item.collapse := by
    cases collapse with
    | true => exact Text.collapse_collapse item
    | false => rfl
  unfold outline html
  simp only [Outline.html, List.append_nil, html_rowsOutline, List.flatMap_map, hdata]
  rfl

end Table

/-! ## Imported tables -/

namespace Include

/-- The text of a table file is read as UTF-8, with its line ends changed. -/
theorem contents?_of_read {ctx : Context} {name t : Text}
    (hencoding : Encoding.ofName? ctx.settings.sourceEncoding = some .utf8)
    (hfile : ctx.files.read (resolve ctx (Text.trim (Scheme.document.deprotect name))) =
      .ok (t.flatMap Encoding.Utf8.encodeChar)) : contents? ctx name = some t.unixLines := by
  unfold contents? text?
  rw [hencoding]
  simp only [path, Site.first, List.headD_cons, hfile, Encoding.decode_encode]
  rfl

theorem importTable_yields {ctx : Context} {site : Site} {contents : Text}
    (hsite : site.directive = .importTable) (htext : contents? ctx site.first = some contents) :
    (Resolve.site ctx site).Yields (Table.convert contents) := by
  intro s _
  unfold Resolve.site
  rw [hsite]
  simp only
  rcases readFile_cases ctx site .unreadableTable s with
    ⟨contents', s₁, htext', hread, hs₁⟩ | ⟨hnone, -⟩
  · rw [text?_eq, htext] at htext'
    cases htext'
    obtain ⟨s₂, htable, hs₂⟩ := tableMarkup_eq_ok (path ctx site).toText contents s₁
    exact ⟨s₂, (bind_of_ok hread).trans htable, hs₁.trans hs₂⟩
  · rw [text?_eq, htext] at hnone
    cases hnone

end Include

/-- A document that imports a table and nothing else. -/
def Table.importing (name : Text) : Text :=
  Kind.contents.block (Directive.importTable.written [name])

theorem Kind.tidy_block (kind : Kind) {u : Text} (h : u.Tidy) : (kind.block u).Tidy := by
  rw [← Table.block_eq]
  exact Table.tidy_block kind h

namespace Preprocess

variable {ctx : Context} {name : Text}

/-- Up to the import, stages pass over the directive. -/
theorem stage_importing {f : Family} (hname : name.Flat) (hlacks : name.Lacks f)
    (hf : Directive.importTable.family ≠ f) :
    (stage ctx (Table.importing name) f).Yields (Table.importing name) := by
  have hline : (Directive.importTable.written [name]).Tidy :=
    ⟨Directive.notMem_written _ (List.forall_mem_singleton.2 hname.tidy.noEscape),
      Directive.nested_written _ (List.forall_mem_singleton.2 hname.tidy.nested)⟩
  have htidy := Kind.contents.tidy_block hline
  have hlinelacks : (Directive.importTable.written [name]).Lacks f :=
    Directive.lacks_written rfl hf (List.forall_mem_singleton.2 hlacks)
  exact stage_yields (Kind.contents.rewrites_block (.of_lacks Text.isBoundary_closing hlinelacks))
    htidy.noEscape htidy.nested

/-- The first pass imports the table. -/
theorem pass_importing {d : Outline .root} {contents : Text} (hname : name.Flat)
    (hlacks : ∀ f ∈ [Family.macros, .includes], name.Lacks f)
    (hcontents : Include.contents? ctx name = some contents)
    (hd : d.source = Kind.contents.block (Table.convert contents)) :
    (pass ctx (Table.importing name)).Yields d.markup := by
  have hmacros : (stage ctx (Table.importing name) .macros).Yields (Table.importing name) :=
    stage_importing hname (hlacks _ (by simp)) (by decide)
  have hincludes : (stage ctx (Table.importing name) .includes).Yields (Table.importing name) :=
    stage_importing hname (hlacks _ (by simp)) (by decide)
  have hsite : Rewrites ctx Directive.importTable.family (Directive.importTable.written [name])
      (Table.convert contents) :=
    .site rfl (List.forall_mem_singleton.2 hname.tidy.nested) rfl fun start stop line =>
      Include.importTable_yields rfl hcontents
  have himport : (stage ctx (Table.importing name) Directive.importTable.family).Yields
      d.markup := by
    have hrewrites := Kind.contents.rewrites_block (hsite.append (.kept (by decide)))
    rw [← hd] at hrewrites
    exact stage_protects hrewrites d.protects_source d.nested_markup
  -- the markup of the table brings no directive
  have hplain : '\\' ∉ d.markup := by
    rw [← d.protects_source.protect_eq]
    exact Scheme.notMem_protect d.protects_source.fault?_eq
  have hlater (f : Family) : (stage ctx d.markup f).Yields d.markup :=
    stage_yields (.kept d.notMem_markup) hplain d.nested_markup
  exact hmacros.bind (hincludes.bind (himport.bind ((hlater .links).bind ((hlater .formats).bind
    ((hlater .codePoints).bind ((hlater .replacements).bind (.pure d.markup)))))))

/-- Importing the table takes one pass. -/
theorem source_importing {d : Outline .root} {contents : Text} {s : RunState} (hname : name.Flat)
    (hlacks : ∀ f ∈ [Family.macros, .includes], name.Lacks f)
    (hcontents : Include.contents? ctx name = some contents)
    (hd : d.source = Kind.contents.block (Table.convert contents))
    (hpatience : ctx.settings.maxPasses = 0 → 0 < ctx.patience) (hs : s.pending = [])
    (hpasses : s.passes = 0) :
    ∃ s', source ctx (Table.importing name) s = .ok d.markup s' ∧ s'.pending = [] := by
  have hline : (Directive.importTable.written [name]).Tidy :=
    ⟨Directive.notMem_written _ (List.forall_mem_singleton.2 hname.tidy.noEscape),
      Directive.nested_written _ (List.forall_mem_singleton.2 hname.tidy.nested)⟩
  have htidy : (Table.importing name).Tidy := Kind.contents.tidy_block hline
  have hdirective : (Table.importing name).hasDirective = true := by
    refine Text.hasDirective_iff.2 ⟨Directive.importTable.written [name] ++ ['\x7d'], ?_, ?_⟩
    · exact (List.suffix_cons '\x7b' _).trans (List.suffix_append _ _)
    · rw [Directive.directive?_written rfl]
      rfl
  refine source_of_pass (.of_notMem htidy.noEscape) htidy.nested
    (pass_importing hname hlacks hcontents hd) (Text.hasDirective_of_notMem d.notMem_markup)
    (fun hnone => ?_) hpatience hs hpasses
  rw [hdirective] at hnone
  cases hnone

end Preprocess

/-- A document that imports a table file in UTF-8 is compiled to a table with a row for each row of
the file and a cell for each item, in their order, whatever characters the items hold; in every
item each run of blanks becomes a space. -/
theorem compile_table {ctx : Context} {name : Text} {rows : List (List Text)} (hname : name.Flat)
    (hlacks : ∀ f ∈ [Family.macros, .includes], name.Lacks f)
    (hencoding : Encoding.ofName? ctx.settings.sourceEncoding = some .utf8)
    (hfile : ctx.files.read
        (Include.resolve ctx (Text.trim (Scheme.document.deprotect name))) =
      .ok ((Table.source rows).flatMap Encoding.Utf8.encodeChar))
    (hpatience : ctx.settings.maxPasses = 0 → 0 < ctx.patience) :
    (compile ctx ("main\x7b.import_table\x7b".toList ++ name ++ "\x7d\x7d".toList)).result =
      .ok (Table.html rows) := by
  have hsource : "main\x7b.import_table\x7b".toList ++ name ++ "\x7d\x7d".toList =
      Table.importing name := by
    simp [Table.importing, Kind.block, Directive.written, Text.blocks, Kind.word, Directive.name]
  have hd : (Table.outline (rows.map (List.map Text.collapse))).source =
      Kind.contents.block (Table.convert (Table.source rows).unixLines) := by
    rw [Table.source_outline, Table.convert_source, List.map_map]
    simp only [Function.comp_def, List.map_map]
  obtain ⟨s, hpreprocess, hs⟩ := Preprocess.source_importing (s := { progress := #[.preprocessing] })
    hname hlacks (Include.contents?_of_read hencoding hfile) hd hpatience rfl rfl
  rw [hsource, Outline.compile_of_source hpreprocess hs, Table.html_outline]

/-- Items with separators, escaped characters and blanks, and a row without items. -/
def Table.sample : List (List Text) :=
  [["a&b".toList, "\u00e9 \r\n\\".toList], [], [[], "\x7b.@]".toList]]

theorem compile_table_sample :
    Table.source Table.sample =
        "a\\&b&\u00e9 \r\n\\\\&$$&\\\x7b\\.\\@\\]&$".toList ∧
      (compile (.ofFile ['f'] (Table.source Table.sample))
        "main\x7b.import_table\x7bf\x7d\x7d".toList).result = .ok ("<html><body><table>".toList ++
          "<tr><td><p>a&b</p></td><td><p>\u00e9 \\</p></td></tr><tr></tr>".toList ++
          "<tr><td><p></p></td><td><p>\x7b.@]</p></td></tr></table></body></html>".toList) := by
  have hname : Text.Flat ['f'] := List.forall_mem_singleton.2 (by decide)
  have hsource : "main\x7b.import_table\x7bf\x7d\x7d".toList =
      "main\x7b.import_table\x7b".toList ++ ['f'] ++ "\x7d\x7d".toList := by decide
  have hhtml : Table.html Table.sample = "<html><body><table>".toList ++
      "<tr><td><p>a&b</p></td><td><p>\u00e9 \\</p></td></tr><tr></tr>".toList ++
      "<tr><td><p></p></td><td><p>\x7b.@]</p></td></tr></table></body></html>".toList := by
    decide +kernel
  rw [hsource, ← hhtml]
  refine ⟨by decide +kernel, ?_⟩
  exact compile_table hname (by decide) (by decide +kernel) (by decide +kernel)
    fun h => absurd h (by decide)

end Bracemark
