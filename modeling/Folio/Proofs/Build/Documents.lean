import Folio.Proofs.Build.Inputs
import Folio.Proofs.Page.InTurn

/-!
# Titles and bodies set into a template

A template is cut at its four marks, in one way only. A document is wanted to be the cut template
with the values of the document in place of the marks, but the marks are replaced in turn, and a
title or a setting can hold a mark itself: `not_wraps_at_once`.

It is as wanted if each mark, when its turn comes, is found as often as in the template, and for
long values only then (`wraps_at_once`). A body is never searched. Titles and settings without an
opening brace are set in as they are, in a template that has its braces in marks only.
-/

namespace Folio.Page

open Text

/-- What a template has marks for. -/
inductive Field
  | title
  | css
  | devJs
  | body
  deriving DecidableEq, Repr

namespace Field

/-- The fields in the order in which their marks are replaced. -/
def all : List Field := [title, css, devJs, body]

def mark : Field → Text
  | title => Page.mark "title"
  | css => Page.mark "css"
  | devJs => Page.mark "dev_js"
  | body => Page.mark "body"

theorem nodup_all : all.Nodup := by decide

theorem mem_all (field : Field) : field ∈ all := by
  cases field <;> decide

theorem brace_mem_mark (field : Field) : '{' ∈ field.mark := by
  cases field <;> decide

/-- Marks end in braces that no mark begins with, so they neither overlap nor hold each other. -/
theorem apart_drop (field other : Field) :
    ∀ n < field.mark.length, 0 < n →
      ¬ field.mark.drop n <+: other.mark ∧ ¬ other.mark <+: field.mark.drop n := by
  cases field <;> cases other <;> decide

theorem separate_mark : Separate mark where
  ne_nil := by
    intro field
    cases field <;> decide
  eq_of_begins := by
    intro field other
    cases field <;> cases other <;> decide
  apart := by
    intro field other front back hsplit hfront hback
    have hdrop : field.mark.drop front.length = back := by rw [hsplit, List.drop_left]
    have hlength : front.length < field.mark.length := by
      rw [hsplit, List.length_append]
      have := List.length_pos_iff.mpr hback
      omega
    rw [← hdrop]
    exact apart_drop field other _ hlength (List.length_pos_iff.mpr hfront)

end Field

namespace Document

/-- The text that a mark stands for. -/
def value (document : Document) : Field → Text
  | .title => escapeMarkup document.title
  | .css => document.css
  | .devJs => document.devJs
  | .body => document.body

theorem render_eq_replaceAll (document : Document) (template : Text) :
    document.render template =
      replaceAll (rulesFor Field.mark document.value Field.all) template := rfl

/-- Each mark, when its turn comes, is found as often as in the template. -/
def MarksStay (document : Document) (template : Text) : Prop :=
  FoundInTurn Field.mark document.value (fun field => occurrences field.mark template)
    Field.all template

instance (document : Document) (template : Text) : Decidable (document.MarksStay template) :=
  inferInstanceAs (Decidable (FoundInTurn ..))

variable {document : Document} {template : Text} {cut : Cut Field}

theorem marksStay_iff (hcut : cut.IsOf Field.mark template) :
    document.MarksStay template ↔
      FoundInTurn Field.mark document.value (cut.marks.count ·) Field.all template := by
  have hcount : (fun field => occurrences field.mark template) = (cut.marks.count ·) :=
    funext fun field => Field.separate_mark.occurrences_eq_count field hcut
  rw [MarksStay, hcount]

theorem filled_all (document : Document) (cut : Cut Field) :
    (cut.filled fun field => if field ∈ Field.all then document.value field else field.mark) =
      cut.filled document.value := by
  simp only [Field.mem_all, if_true]

theorem render_eq_filled (hcut : cut.IsOf Field.mark template)
    (hstay : document.MarksStay template) :
    document.render template = cut.filled document.value := by
  have hfound := (marksStay_iff hcut).mp hstay
  rw [← hcut.filled] at hfound ⊢
  rw [render_eq_replaceAll, ← filled_all document cut]
  exact replaceAll_eq_filled Field.separate_mark Field.nodup_all (fun _ _ => rfl) hfound

/-- The title comes first and meets the marks of the template only, so its length does not
matter. -/
theorem marksStay_of_render_eq (hcut : cut.IsOf Field.mark template)
    (hlong : ∀ field ∈ [Field.css, .devJs, .body],
      field.mark.length < (document.value field).length)
    (h : document.render template = cut.filled document.value) : document.MarksStay template := by
  have htitle := Field.separate_mark.occurrences_eq_count .title hcut
  have hturn := Cut.replace_filled Field.separate_mark rfl (document.value .title)
    (by rw [hcut.filled]; exact htitle)
  rw [hcut.filled] at hturn
  have hkept : ∀ field ∈ [Field.css, .devJs, .body],
      Function.update Field.mark .title (document.value .title) field = field.mark :=
    update_eq_mark (by decide) (fun _ _ => rfl) _
  have hcount : ∀ field ∈ [Field.css, .devJs, .body], cut.marks.count field ≤
      occurrences field.mark (template.replace Field.title.mark (document.value .title)) := by
    intro field hfield
    rw [hturn]
    exact Cut.count_le_occurrences Field.separate_mark (hkept field hfield) cut
  refine (marksStay_iff hcut).mpr ⟨htitle, ?_⟩
  have hresult := h.trans (filled_all document cut).symm
  rw [Field.all, ite_mem_cons (by decide)] at hresult
  exact (foundInTurn_of_length_le Field.separate_mark (by decide) hkept hlong hcount
    (Nat.le_of_eq (congrArg List.length hturn.symm))
    (Nat.le_of_eq (congrArg List.length hresult))).2

/-! ## Plain titles -/

theorem eq_brace_of_mem_escapeMarkupChar {c : Char} (h : '{' ∈ escapeMarkupChar c) : c = '{' := by
  unfold escapeMarkupChar at h
  repeat' split at h
  all_goals first
    | exact absurd h (by decide)
    | exact (List.mem_singleton.mp h).symm

theorem brace_notMem_escapeMarkup {text : Text} (h : '{' ∉ text) : '{' ∉ escapeMarkup text := by
  intro hmem
  obtain ⟨c, hc, hbrace⟩ := List.mem_flatMap.mp hmem
  rw [eq_brace_of_mem_escapeMarkupChar hbrace] at hc
  exact h hc

theorem marksStay_of_plain (hcut : cut.IsOf Field.mark template)
    (hstretches : ∀ stretch ∈ cut.stretches, '{' ∉ stretch) (htitle : '{' ∉ document.title)
    (hcss : '{' ∉ document.css) (hdevJs : '{' ∉ document.devJs) :
    document.MarksStay template := by
  rw [marksStay_iff hcut, ← hcut.filled]
  refine foundInTurn_of_plain Field.separate_mark Field.brace_mem_mark hstretches
    (fun _ => .inl rfl) Field.nodup_all (fun _ _ => rfl) ?_
  intro field hfield
  cases field with
  | title => exact brace_notMem_escapeMarkup htitle
  | css => exact hcss
  | devJs => exact hdevJs
  | body => exact absurd hfield (by decide)

end Document

end Folio.Page

namespace Folio.Build

open Page Text

variable {shell : Shell} {tree : FileTree} {home : Location} {template css devJs : Text}

theorem wrap_eq_ok (htemplate : templateAt tree home shell.template = .ok template)
    (hcss : shell.css = some css) (hcssText : css.strip ≠ [])
    (hdevJs : shell.devJs = some devJs) (hdevJsText : devJs.strip ≠ []) (title body : Text) :
    shell.wrap tree home title body = .ok (Document.render ⟨title, css, devJs, body⟩ template) := by
  unfold Shell.wrap requireValue
  rw [htemplate, hcss, hdevJs]
  dsimp only
  rw [if_neg hcssText, if_neg hdevJsText]
  rfl

/-- A page is a template with the values of a document in place of all its marks, as far as a page
can be: the cut of the template is the only one, and no value is searched as long as the marks
stay. -/
structure WrapsAtOnce (document : Document) (template : Text) (cut : Cut Field) (page : Text) :
    Prop where
  isOf : cut.IsOf Field.mark template
  unique : ∀ other : Cut Field, other.IsOf Field.mark template → other = cut
  atOnce : document.MarksStay template → page = cut.filled document.value
  /-- A mark that comes up is seen in the length of the page if the values are longer than marks. -/
  onlyIf : (∀ field ∈ [Field.css, .devJs, .body],
      field.mark.length < (document.value field).length) →
    page = cut.filled document.value → document.MarksStay template
  plain : (∀ stretch ∈ cut.stretches, '{' ∉ stretch) → '{' ∉ document.title →
    '{' ∉ document.css → '{' ∉ document.devJs → page = cut.filled document.value

/-- With a template that can be read and settings that are not blank, every title and every body
make a page, which is the template with all marks replaced at once if the marks stay. -/
theorem wraps_at_once (htemplate : templateAt tree home shell.template = .ok template)
    (hcss : shell.css = some css) (hcssText : css.strip ≠ [])
    (hdevJs : shell.devJs = some devJs) (hdevJsText : devJs.strip ≠ []) (title body : Text) :
    ∃ cut page, shell.wrap tree home title body = .ok page ∧
      WrapsAtOnce ⟨title, css, devJs, body⟩ template cut page := by
  obtain ⟨cut, hcut⟩ := exists_isOf Field.separate_mark.ne_nil template
  refine ⟨cut, _, wrap_eq_ok htemplate hcss hcssText hdevJs hdevJsText title body, ?_⟩
  exact {
    isOf := hcut
    unique := fun other hother => hother.unique Field.separate_mark hcut
    atOnce := Document.render_eq_filled hcut
    onlyIf := Document.marksStay_of_render_eq hcut
    plain := fun hstretches htitle hcssPlain hdevJsPlain =>
      Document.render_eq_filled hcut
        (Document.marksStay_of_plain hcut hstretches htitle hcssPlain hdevJsPlain) }

/-- A short template, cut at its marks. -/
def shortCut : Cut Field :=
  .next "<t>" .title (.next "</t><l " .css (.next "><s " .devJs (.next ">" .body (.last []))))

def shortTemplate : Text :=
  "<t>\x7b\x7btitle\x7d\x7d</t><l \x7b\x7bcss\x7d\x7d><s \x7b\x7bdev_js\x7d\x7d>\x7b\x7bbody\x7d\x7d"

def shortBook : FileTree := ⟨[(["t"], .file (Utf8.encode shortTemplate))]⟩

def shortShell : Shell where
  css := some "c.css"
  devJs := some "r.js"
  template := .ofLocation ["t"]

theorem templateAt_shortBook : templateAt shortBook [] shortShell.template = .ok shortTemplate := by
  decide +kernel

theorem isOf_shortCut : shortCut.IsOf Field.mark shortTemplate where
  filled := by decide
  free := by
    intro stretch hstretch field
    revert stretch
    cases field <;> decide

/-- The body holds a mark, and the title characters with a meaning in markup. -/
theorem wraps_at_once_shortBook :
    templateAt shortBook [] shortShell.template = .ok shortTemplate ∧
      Document.MarksStay ⟨"a & b", "c.css", "r.js", "\x7b\x7bcss\x7d\x7d"⟩ shortTemplate ∧
      shortShell.wrap shortBook [] "a & b" "\x7b\x7bcss\x7d\x7d" =
        .ok "<t>a &amp; b</t><l c.css><s r.js>\x7b\x7bcss\x7d\x7d" := by
  have hcss : shortShell.css = some "c.css" := rfl
  have hdevJs : shortShell.devJs = some "r.js" := rfl
  have hstay : Document.MarksStay
      ⟨"a & b", "c.css", "r.js", "\x7b\x7bcss\x7d\x7d"⟩ shortTemplate := by
    decide
  refine ⟨templateAt_shortBook, hstay, ?_⟩
  obtain ⟨cut, page, hwrap, hpage⟩ := wraps_at_once templateAt_shortBook hcss (by decide)
    hdevJs (by decide) "a & b" "\x7b\x7bcss\x7d\x7d"
  obtain rfl := hpage.unique shortCut isOf_shortCut
  rw [hwrap, hpage.atOnce hstay]
  decide

/-- A title that is the mark of the body is taken for one. -/
theorem not_wraps_at_once :
    ¬ ∀ (shell : Shell) (tree : FileTree) (home : Location) (template css devJs title body : Text)
      (cut : Cut Field), templateAt tree home shell.template = .ok template →
      shell.css = some css → css.strip ≠ [] → shell.devJs = some devJs → devJs.strip ≠ [] →
      cut.IsOf Field.mark template →
      shell.wrap tree home title body =
        .ok (cut.filled (Document.value ⟨title, css, devJs, body⟩)) := by
  intro h
  have hwanted := h shortShell shortBook [] shortTemplate "c.css" "r.js" "\x7b\x7bbody\x7d\x7d" "b"
    shortCut templateAt_shortBook rfl (by decide) rfl (by decide) isOf_shortCut
  rw [wrap_eq_ok templateAt_shortBook rfl (by decide) rfl (by decide)] at hwanted
  exact absurd (Except.ok.inj hwanted) (by decide)

end Folio.Build
