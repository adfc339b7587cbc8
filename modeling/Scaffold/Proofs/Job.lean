import Scaffold.Job
import Scaffold.Proofs.Document.Window

/-!
# What jobs do to files

A job either puts its markup into its target or leaves every file as it was, but for a target that
it created empty before anything else was done (`run_all_or_nothing`).  All the ways in which a
job can end come down to two: its target cannot be opened, or it can, and then what is written is
what the job makes of the document in it (`run_cases`).  In the second case writing does not fail.

Fragments can be put into a window again and again (`refreshAll_stable`): the window stays where it
was, whatever the fragments hold, and around it no byte changes.
-/

namespace Scaffold

/-! ## Opening a target -/

namespace Store

/-- The document that stands at a place: the text of a file, or nothing where there is no file. -/
def Holds (s : Store) (names : Names) (document : Text) : Prop :=
  (∃ content, s.get? names = some (.file content) ∧ decode? content = some document) ∨
    (s.get? names = none ∧ document = [])

/-- A store that differs from another one at most by an empty file at a place that was free. -/
def IsOpened (s opened : Store) (names : Names) : Prop :=
  ∀ other, opened.get? other = s.get? other ∨
    (other = names ∧ s.get? names = none ∧ opened.get? names = some (.file ByteArray.empty))

theorem contains_of_find_ok {s : Store} {path : Text} {entry : Entry}
    (h : s.find path = .ok entry) : s.contains path = true := by
  rw [contains, h]

theorem get?_of_not_contains {s : Store} {path : Text} {names : Names}
    (h : s.contains path = false) (hplace : s.IsPlace path names) : s.get? names = none := by
  cases hentry : s.get? names with
  | none => rfl
  | some entry =>
    cases entry with
    | directory => exact absurd hentry hplace.no_directory
    | file content =>
      rw [contains_of_find_ok (hplace.find_file hentry)] at h
      cases h

end Store

/-- A target cannot be opened, and then nothing happens, or it stands at a place and is opened with
the document there. -/
theorem openTarget_cases (store : Store) (path : Text) :
    (∃ e, openTarget store path = (.error e, store)) ∨
      ∃ names document opened, openTarget store path = (.ok document, opened) ∧
        store.IsPlace path names ∧ opened.IsPlace path names ∧ store.Holds names document ∧
        store.IsOpened opened names := by
  unfold openTarget
  split
  · split
    · next document hread =>
      obtain ⟨names, content, hplace, hfile, hdecode⟩ := Store.read_eq_ok_iff.1 hread
      exact Or.inr ⟨names, document, store, rfl, hplace, hplace,
        Or.inl ⟨content, hfile, hdecode⟩, fun other => Or.inl rfl⟩
    · exact Or.inl ⟨_, rfl⟩
  · next hcontains =>
    split
    · next opened hwrite =>
      obtain ⟨names, hplace, rfl⟩ := Store.write_eq_ok_iff.1 hwrite
      have hfree := Store.get?_of_not_contains (by simpa using hcontains) hplace
      refine Or.inr ⟨names, [], _, rfl, hplace, hplace.put _, Or.inr ⟨hfree, rfl⟩, ?_⟩
      intro other
      by_cases hother : other = names
      · exact Or.inr ⟨hother, hfree, Store.get?_put_self store hplace.ne_nil _⟩
      · exact Or.inl (Store.get?_put_of_ne store hother _)
    · exact Or.inl ⟨_, rfl⟩

theorem openTarget_of_read {store : Store} {path document : Text}
    (h : store.read path = .ok document) : openTarget store path = (.ok document, store) := by
  obtain ⟨names, content, hplace, hfile, -⟩ := Store.read_eq_ok_iff.1 h
  rw [openTarget, if_pos (Store.contains_of_find_ok (hplace.find_file hfile)), h]

/-- The document at a place is opened as it is, and where there is no file an empty one is made. -/
theorem openTarget_of_holds {store : Store} {path document : Text} {names : Names}
    (hplace : store.IsPlace path names) (h : store.Holds names document) :
    ∃ opened, openTarget store path = (.ok document, opened) ∧ opened.IsPlace path names := by
  rcases h with ⟨content, hfile, hdecode⟩ | ⟨hfree, rfl⟩
  · have hread := Store.read_eq_ok_iff.2 ⟨names, content, hplace, hfile, hdecode⟩
    exact ⟨store, openTarget_of_read hread, hplace⟩
  · have hcontains : ¬ store.contains path = true := by
      rw [Store.contains, hplace.find_none hfree]
      exact Bool.false_ne_true
    refine ⟨store.put names (.file (encode [])), ?_, hplace.put _⟩
    rw [openTarget, if_neg hcontains, hplace.write]

/-! ## Running a job -/

/-- A store in which the markup that a job ended with, if any, stands at a place. -/
def Store.deliver (s : Store) (names : Names) : Except Error (Option Text) → Store
  | .ok (some markup) => s.put names (.file (encode markup))
  | _ => s

namespace Job

/-- A job whose target is open ends with what it makes of the document.  Writing cannot fail. -/
theorem run_of_openTarget {job : Job} {target : Target} (htarget : job.target = some target)
    {store opened : Store} {document : Text} {names : Names}
    (hopen : openTarget store target.path = (.ok document, opened))
    (hplace : opened.IsPlace target.path names) (formatter : Formatter) :
    job.run formatter store =
      { result := job.produce formatter document
        store := opened.deliver names (job.produce formatter document) } := by
  rw [run, htarget]
  simp only [hopen]
  cases job.produce formatter document with
  | error e => rfl
  | ok markup? =>
    cases markup? with
    | none => rfl
    | some markup =>
      simp only [hplace.write]
      rfl

theorem run_of_no_target {job : Job} (htarget : job.target = none) (formatter : Formatter)
    (store : Store) :
    job.run formatter store = { result := job.produce formatter [], store } := by
  rw [run, htarget]

/-- A job that has a target cannot open it, or delivers what it makes of the document. -/
theorem run_cases {job : Job} {target : Target} (htarget : job.target = some target)
    (formatter : Formatter) (store : Store) :
    (∃ e, job.run formatter store = { result := .error e, store }) ∨
      ∃ names document opened,
        store.IsPlace target.path names ∧ store.Holds names document ∧
        store.IsOpened opened names ∧
        job.run formatter store =
          { result := job.produce formatter document
            store := opened.deliver names (job.produce formatter document) } := by
  rcases openTarget_cases store target.path with
    ⟨e, hopen⟩ | ⟨names, document, opened, hopen, hplace, hplace', hholds, hopened⟩
  · refine Or.inl ⟨e, ?_⟩
    rw [run, htarget]
    simp only [hopen]
  · exact Or.inr ⟨names, document, opened, hplace, hholds, hopened,
      run_of_openTarget htarget hopen hplace' formatter⟩

/-- What a job makes of a document: the window filled with the fragment, formatted or not. -/
theorem produce_eq_some {job : Job} {target : Target} (htarget : job.target = some target)
    {formatter : Formatter} {document markup : Text}
    (h : job.produce formatter document = .ok (some markup)) :
    ∃ content w, fragment job.css = .ok (some content) ∧
      window document target.path target.after target.before = .ok w ∧
      if job.format then formatter.run (w.fill content) = .ok markup
      else markup = w.fill content := by
  unfold produce at h
  split at h
  · cases h
  · cases h
  · next text hdraft =>
    unfold draft at hdraft
    split at hdraft
    · cases hdraft
    · cases hdraft
    · next content hcontent =>
      rw [htarget] at hdraft
      dsimp only at hdraft
      cases hwindow : window document target.path target.after target.before with
      | error e =>
        rw [hwindow] at hdraft
        cases hdraft
      | ok w =>
        rw [hwindow] at hdraft
        obtain rfl : w.fill content = text := Option.some.inj (Except.ok.inj hdraft)
        refine ⟨content, w, hcontent, rfl, ?_⟩
        split at h
        · next hformat =>
          rw [if_pos hformat]
          cases hrun : formatter.run (w.fill content) with
          | error e =>
            rw [hrun] at h
            cases h
          | ok formatted =>
            rw [hrun] at h
            exact congrArg Except.ok (Option.some.inj (Except.ok.inj h))
        · next hformat =>
          rw [if_neg hformat]
          exact (Option.some.inj (Except.ok.inj h)).symm

end Job

/-! ## All or nothing -/

/-- A store after a job that made nothing: no entry differs, but that a target that did not exist
may be an empty file. -/
def Job.Spares (job : Job) (before after : Store) : Prop :=
  ∀ names, after.get? names = before.get? names ∨
    ∃ target, job.target = some target ∧ before.IsPlace target.path names ∧
      before.get? names = none ∧ after.get? names = some (.file ByteArray.empty)

/-- A store after a job that made markup for its target: the target holds the markup, and no other
entry differs.  The markup is the old document with its window filled, formatted if asked for. -/
def Job.Delivers (job : Job) (formatter : Formatter) (target : Target) (markup : Text)
    (before after : Store) : Prop :=
  ∃ names document content w,
    before.IsPlace target.path names ∧ before.Holds names document ∧
    fragment job.css = .ok (some content) ∧
    window document target.path target.after target.before = .ok w ∧
    (if job.format then formatter.run (w.fill content) = .ok markup
      else markup = w.fill content) ∧
    after.get? names = some (.file (encode markup)) ∧
    ∀ other, other ≠ names → after.get? other = before.get? other

theorem Store.deliver_of_ne_some (s : Store) (names : Names) {result : Except Error (Option Text)}
    (h : ∀ markup, result ≠ .ok (some markup)) : s.deliver names result = s := by
  unfold deliver
  split
  · next markup => exact absurd rfl (h markup)
  · rfl

/-- A job puts its markup into its target, or it leaves every file as it was and at most creates an
empty target.  Without a target it changes nothing.  Where the target can be opened, the job ends
with what it makes of the document there. -/
theorem run_all_or_nothing (job : Job) (formatter : Formatter) (store : Store) :
    (job.target = none → (job.run formatter store).store = store) ∧
    ((∀ markup, (job.run formatter store).result ≠ .ok (some markup)) →
      job.Spares store (job.run formatter store).store) ∧
    (∀ target markup, job.target = some target →
      (job.run formatter store).result = .ok (some markup) →
      job.Delivers formatter target markup store (job.run formatter store).store) ∧
    ∀ target names document, job.target = some target → store.IsPlace target.path names →
      store.Holds names document →
      (job.run formatter store).result = job.produce formatter document := by
  refine ⟨?_, ?_, ?_, ?_⟩
  · intro htarget
    rw [Job.run_of_no_target htarget]
  -- nothing was made: at most the target is new, and empty
  · intro hnothing names
    cases htarget : job.target with
    | none =>
      rw [Job.run_of_no_target htarget]
      exact Or.inl rfl
    | some target =>
      rcases Job.run_cases htarget formatter store with
        ⟨e, hrun⟩ | ⟨place, document, opened, hplace, -, hopened, hrun⟩
      · rw [hrun]
        exact Or.inl rfl
      · rw [hrun] at hnothing ⊢
        dsimp only at hnothing ⊢
        rw [Store.deliver_of_ne_some opened place hnothing]
        rcases hopened names with heq | ⟨rfl, hfree, hcreated⟩
        · exact Or.inl heq
        · exact Or.inr ⟨target, rfl, hplace, hfree, hcreated⟩
  -- markup was made: opening the target changed no entry but the one that is overwritten
  · intro target markup htarget hresult
    rcases Job.run_cases htarget formatter store with
      ⟨e, hrun⟩ | ⟨place, document, opened, hplace, hholds, hopened, hrun⟩
    · rw [hrun] at hresult
      cases hresult
    · rw [hrun] at hresult ⊢
      dsimp only at hresult ⊢
      obtain ⟨content, w, hcontent, hwindow, hmarkup⟩ := Job.produce_eq_some htarget hresult
      refine ⟨place, document, content, w, hplace, hholds, hcontent, hwindow, hmarkup, ?_, ?_⟩
      · rw [hresult]
        exact Store.get?_put_self opened hplace.ne_nil _
      · intro other hother
        rw [hresult]
        refine (Store.get?_put_of_ne opened hother _).trans ?_
        rcases hopened other with heq | ⟨heq, -⟩
        · exact heq
        · exact absurd heq hother
  · intro target names document htarget hplace hholds
    obtain ⟨opened, hopen, hplace'⟩ := openTarget_of_holds hplace hholds
    rw [Job.run_of_openTarget htarget hopen hplace']

/-! ## Filling a window again and again -/

namespace Store

theorem put_put (s : Store) (names : Names) (entry : Entry) :
    (s.put names entry).put names entry = s.put names entry := by
  simp [put, List.filter_filter]

theorem deliver_deliver (s : Store) (names : Names) (result : Except Error (Option Text)) :
    (s.deliver names result).deliver names result = s.deliver names result := by
  cases result with
  | error e => rfl
  | ok markup? =>
    cases markup? with
    | none => rfl
    | some markup => exact put_put s names _

theorem IsPlace.deliver {s : Store} {path : Text} {names : Names} (h : s.IsPlace path names)
    (result : Except Error (Option Text)) : (s.deliver names result).IsPlace path names := by
  unfold Store.deliver
  split
  · exact h.put _
  · exact h

end Store

namespace Target

/-- The job that puts the fragment of a sheet into the target's window, as it is. -/
def refresh (target : Target) (css : Text) : Job :=
  { css, target := some target, format := false }

/-- The store after the fragments of sheets were put into the target, one after another. -/
def refreshAll (target : Target) (formatter : Formatter) (store : Store) (sheets : List Text) :
    Store :=
  sheets.foldl (fun s css => ((target.refresh css).run formatter s).store) store

end Target

/-- The last fragment that sheets give; some may give none. -/
def lastFragment? (sheets : List Text) : Option Text :=
  (sheets.filterMap fun css => (fragment css).toOption.join).getLast?

/-- The document of a window, with the window filled if there is a content for it. -/
def Window.refill (w : Window) (content? : Option Text) : Text :=
  content?.elim w.document w.fill

/-- A window that is filled is still a window at the same place. -/
theorem window_refill {document path : Text} {after before : Option Text} {w : Window}
    (h : window document path after before = .ok w) (content? : Option Text) :
    ∃ body, window (w.refill content?) path after before = .ok { w with body } := by
  cases content? with
  | none =>
    refine ⟨w.body, ?_⟩
    rw [Window.refill, Option.elim_none, document_of_window h, h]
  | some content => exact ⟨content, window_fill h content⟩

/-- A fragment that goes into a window that was filled before fills it as if for the first time. -/
theorem produce_refresh {target : Target} {document : Text} {w : Window}
    (h : window document target.path target.after target.before = .ok w)
    (formatter : Formatter) (css : Text) (content? : Option Text) :
    (target.refresh css).produce formatter (w.refill content?) =
      (fragment css).map (Option.map w.fill) := by
  obtain ⟨body, hwindow⟩ := window_refill h content?
  unfold Job.produce Job.draft Target.refresh
  dsimp only
  rw [hwindow]
  cases fragment css with
  | error e => rfl
  | ok fragment? => cases fragment? <;> rfl

theorem lastFragment?_cons (css : Text) (sheets : List Text) :
    lastFragment? (css :: sheets) = (lastFragment? sheets).or (fragment css).toOption.join := by
  unfold lastFragment?
  cases h : (fragment css).toOption.join with
  | none => simp [h]
  | some content =>
    simp only [List.filterMap_cons, h, List.getLast?_cons]
    cases (sheets.filterMap fun css => (fragment css).toOption.join).getLast? <;> rfl

/-- One more sheet: what its job ends with, and the store that it leaves. -/
theorem run_refresh {target : Target} {document : Text} {w : Window}
    (h : window document target.path target.after target.before = .ok w) {store : Store}
    {content? : Option Text} (hread : store.read target.path = .ok (w.refill content?))
    {names : Names} (hplace : store.IsPlace target.path names) (formatter : Formatter)
    (css : Text) :
    (target.refresh css).run formatter store =
      { result := (fragment css).map (Option.map w.fill)
        store := store.deliver names ((fragment css).map (Option.map w.fill)) } := by
  rw [Job.run_of_openTarget rfl (openTarget_of_read hread) hplace, produce_refresh h]

theorem read_deliver {path : Text} {w : Window} {store : Store} {content? : Option Text}
    (hread : store.read path = .ok (w.refill content?)) {names : Names}
    (hplace : store.IsPlace path names) (fragment? : Except Error (Option Text)) :
    (store.deliver names (fragment?.map (Option.map w.fill))).read path =
      .ok (w.refill (fragment?.toOption.join.or content?)) := by
  cases fragment? with
  | error e => exact hread
  | ok content =>
    cases content with
    | none => exact hread
    | some content => exact Store.read_put hplace _

/-- The document that stands in the target after sheets: its window holds the last fragment, or what
it held before if none of the sheets gave one. -/
theorem read_refreshAll {target : Target} {document : Text} {w : Window}
    (h : window document target.path target.after target.before = .ok w) (formatter : Formatter)
    (sheets : List Text) {store : Store} {content? : Option Text}
    (hread : store.read target.path = .ok (w.refill content?)) :
    (target.refreshAll formatter store sheets).read target.path =
      .ok (w.refill ((lastFragment? sheets).or content?)) := by
  induction sheets generalizing store content? with
  | nil => exact hread
  | cons css sheets ih =>
    obtain ⟨names, -, hplace, -⟩ := Store.read_eq_ok_iff.1 hread
    have hnext := read_deliver hread hplace (fragment css)
    rw [lastFragment?_cons, Option.or_assoc, Target.refreshAll, List.foldl_cons,
      run_refresh h hread hplace]
    exact ih hnext

/-- A sheet that is run twice in a row leaves the store that it leaves when it is run once. -/
theorem run_refresh_twice {target : Target} {document : Text} {w : Window}
    (h : window document target.path target.after target.before = .ok w) {store : Store}
    {content? : Option Text} (hread : store.read target.path = .ok (w.refill content?))
    (formatter : Formatter) (css : Text) :
    ((target.refresh css).run formatter ((target.refresh css).run formatter store).store).store =
      ((target.refresh css).run formatter store).store := by
  obtain ⟨names, -, hplace, -⟩ := Store.read_eq_ok_iff.1 hread
  have hnext := read_deliver hread hplace (fragment css)
  rw [run_refresh h hread hplace]
  dsimp only
  rw [run_refresh h hnext (hplace.deliver _)]
  exact Store.deliver_deliver store names _

theorem not_anchor_of_fragment {css : Text} {e : Error} (h : fragment css = .error e) :
    (∀ anchor path, e ≠ .anchorNotFound anchor path) ∧ ∀ path, e ≠ .anchorOrder path := by
  unfold fragment at h
  split at h
  · cases h
  · obtain rfl := Except.error.inj h
    exact ⟨fun anchor path => Error.noConfusion, fun path => Error.noConfusion⟩

/-- Sheets can be put into a window again and again, with whatever fragments they have, and also if
they have none.  No anchor is ever missed; the target is the document with the bytes of its window
replaced by the last fragment; and a sheet that is run again changes nothing. -/
theorem refreshAll_stable {store : Store} {target : Target} {document : Text} {w : Window}
    (hread : store.read target.path = .ok document)
    (hwindow : window document target.path target.after target.before = .ok w)
    (formatter : Formatter) (sheets : List Text) :
    (∃ text, (target.refreshAll formatter store sheets).read target.path = .ok text ∧
      encode text = (lastFragment? sheets).elim (encode document) fun content =>
        replaceBytes (encode document) w.start w.stop (encode content)) ∧
    (∀ css,
      ((target.refresh css).run formatter (target.refreshAll formatter store sheets)).result =
        (fragment css).map (Option.map w.fill)) ∧
    (∀ css e,
      ((target.refresh css).run formatter (target.refreshAll formatter store sheets)).result =
        .error e →
      (∀ anchor path, e ≠ .anchorNotFound anchor path) ∧ ∀ path, e ≠ .anchorOrder path) ∧
    ∀ css, target.refreshAll formatter store (sheets ++ [css, css]) =
      target.refreshAll formatter store (sheets ++ [css]) := by
  have hdocument := document_of_window hwindow
  have hstart : store.read target.path = .ok (w.refill none) := by
    rw [hread, ← hdocument]
    rfl
  -- at any time the document is the first one with its window filled by the last fragment
  have hnow := read_refreshAll hwindow formatter sheets hstart
  rw [Option.or_none] at hnow
  have hresult : ∀ css,
      ((target.refresh css).run formatter (target.refreshAll formatter store sheets)).result =
        (fragment css).map (Option.map w.fill) := by
    intro css
    obtain ⟨names, -, hplace, -⟩ := Store.read_eq_ok_iff.1 hnow
    rw [run_refresh hwindow hnow hplace]
  refine ⟨⟨_, hnow, ?_⟩, hresult, ?_, ?_⟩
  · cases lastFragment? sheets with
    | none => rw [Window.refill, Option.elim_none, Option.elim_none, hdocument]
    | some content =>
      rw [Window.refill, Option.elim_some, Option.elim_some, ← hdocument]
      exact encode_fill w content
  · intro css e he
    rw [hresult] at he
    cases hfragment : fragment css with
    | error e' =>
      rw [hfragment] at he
      obtain rfl := Except.error.inj he
      exact not_anchor_of_fragment hfragment
    | ok fragment? =>
      rw [hfragment] at he
      cases he
  · intro css
    rw [Target.refreshAll, Target.refreshAll, List.foldl_append, List.foldl_append]
    exact run_refresh_twice hwindow hnow formatter css

/-- A page in which the anchors overlap themselves and each other. -/
def entwinedPage : Store :=
  Store.empty.put ["page.html".toList] (.file (encode "aXaXa".toList))

/-- The window between those anchors. -/
def entwinedTarget : Target where
  path := "page.html".toList
  after := some "aXa".toList
  before := some "Xa".toList

/-- A sheet whose fragment holds the anchors, one without a block and one without rules. -/
def entwinedSheets : List Text :=
  ["aXaXa {}", "p", ""].map String.toList

theorem refreshAll_stable_entwined :
    entwinedPage.read entwinedTarget.path = .ok "aXaXa".toList ∧
      window "aXaXa".toList entwinedTarget.path entwinedTarget.after entwinedTarget.before =
        .ok ⟨"aXa".toList, [], "Xa".toList⟩ ∧
      lastFragment? entwinedSheets = some "<aXaXa></aXaXa>\n".toList ∧
      (∃ text, (entwinedTarget.refreshAll .indented entwinedPage entwinedSheets).read
          entwinedTarget.path = .ok text ∧
        encode text = replaceBytes (encode "aXaXa".toList) 3 3
          (encode "<aXaXa></aXaXa>\n".toList)) ∧
      entwinedTarget.refreshAll .indented entwinedPage
          (entwinedSheets ++ ["aXaXa {}".toList, "aXaXa {}".toList]) =
        entwinedTarget.refreshAll .indented entwinedPage
          (entwinedSheets ++ ["aXaXa {}".toList]) := by
  have hread : entwinedPage.read entwinedTarget.path = .ok "aXaXa".toList :=
    Store.read_eq_ok_iff.2 ⟨["page.html".toList], encode "aXaXa".toList,
      ⟨rfl, by decide, by rintro ⟨⟩⟩, rfl, decode?_encode _⟩
  have hwindow : window "aXaXa".toList entwinedTarget.path entwinedTarget.after
      entwinedTarget.before = .ok ⟨"aXa".toList, [], "Xa".toList⟩ := rfl
  have hlast : lastFragment? entwinedSheets = some "<aXaXa></aXaXa>\n".toList := by
    decide +kernel
  obtain ⟨htext, -, -, htwice⟩ := refreshAll_stable hread hwindow .indented entwinedSheets
  rw [hlast] at htext
  exact ⟨hread, hwindow, hlast, htext, htwice "aXaXa {}".toList⟩

end Scaffold
