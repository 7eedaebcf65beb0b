import TruthTables.Proofs.CommandLine.Plan

namespace TruthTables.CommandLine

namespace Store

variable {σ : Type}

/-- Every text can be put under the path, and is found there. -/
def Writable (store : Store σ) (kept : σ) (format : Format) (path : String) : Prop :=
  ∀ text, ∃ next, store.save kept format path text = .ok next ∧ store.content? next path = some text

theorem run_of_printed {s : Settings} {request : Request} {printed : String} {exitCode : Nat}
    (h : (plan s request).outcome = .ok ⟨printed, none, exitCode⟩) (store : Store σ) (kept : σ) :
    store.run s kept request = ⟨printed, .ok exitCode, kept⟩ := by
  rw [run, h]
  rfl

theorem run_of_saved {s : Settings} {request : Request} {printed path content : String}
    {exitCode : Nat} (h : (plan s request).outcome = .ok ⟨printed, some (path, content), exitCode⟩)
    {store : Store σ} {kept next : σ}
    (hsave : store.save kept request.format path content = .ok next) :
    store.run s kept request = ⟨printed, .ok exitCode, next⟩ := by
  rw [run, h, carryOut]
  dsimp only
  rw [hsave]

end Store

end CommandLine

namespace Folder

open CommandLine

theorem contentAt?_of_segments {path name : String} (h : Path.segments path = [name])
    (folder : Folder) : folder.contentAt? path = folder.find? name := by
  rw [contentAt?, h]

theorem perform_eq_run (s : Settings) (who : Identity) (folder : Folder) (request : Request)
    (weight : Nat) :
    perform s who folder request weight =
      ⟨(store.run s folder request).stdout, logLines who weight (plan s request).records,
        (store.run s folder request).ending, (store.run s folder request).kept⟩ :=
  rfl

theorem writable {path name : String} (hzero : path.toList.contains '\x00' = false)
    (hsegments : Path.segments path = [name]) (hname : name ≠ "..")
    (hfolder : (Path.trail path).contains "" = false)
    (hdot : (Path.trail path).contains "." = false) (hshort : Path.isLong name = false)
    (folder : Folder) (format : Format) : store.Writable folder format path := by
  intro text
  have hdescent : Path.descent path = [name] := by
    rw [Path.descent, hsegments]
    simp [hname]
  have hwrite : folder.write path text = .ok (folder.put name text) := by
    simp only [write, hzero, hdescent, hdot, hfolder, hshort, hsegments]
    rfl
  have hparent : findParent path = .ok () := by rw [findParent, hdescent]
  refine ⟨folder.put name text, ?_, ?_⟩
  · cases format with
    | text => exact hwrite
    | csv =>
        change (findParent path).bind (fun _ => folder.write path text) = _
        rw [hparent]
        exact hwrite
  · exact (contentAt?_of_segments hsegments _).trans ((find?_put ..).trans (if_pos rfl))

end Folder

namespace CommandLine

/-- With a path that can be written a run ends as without one, in both cases with 1 exactly for a
text that is invalid. A table that would be printed behind the heading stands under the path instead,
and where there is no table both runs print the heading alone and nothing kept is changed. -/
theorem output_path_moves_table {σ : Type} (store : Store σ) (kept : σ) (s : Settings)
    (hs : s.fault? = none) (request : Request) (limit : Option Int)
    (hlimit : request.maxVariables = some (limit.getD s.maxVariables)) (path : String)
    (hpath : path ≠ "") (hwritable : store.Writable kept request.format path) :
    ∃ submission,
      (Submission.process s (some request.expression) limit).outcome = .ok submission ∧
      let printing := store.run s kept { request with output := none }
      let saving := store.run s kept { request with output := some path }
      printing.ending = .ok (if submission.status = "invalid" then 1 else 0) ∧
      saving.ending = printing.ending ∧
      printing.kept = kept ∧
      (submission.status = "ok" → ∃ document,
        printing.stdout = submission.heading s ++ "\n" ++ document ∧
        saving.stdout = submission.heading s ++ "\n" ∧
        store.content? saving.kept path = some document) ∧
      (submission.status = "idle" ∨ submission.status = "invalid" →
        printing.stdout = submission.heading s ++ "\n" ∧
        saving.stdout = submission.heading s ++ "\n" ∧
        saving.kept = kept) := by
  obtain ⟨submission, hprocess, htabulates⟩ :=
    Submission.exists_outcome_process s request.expression limit
  refine ⟨submission, hprocess, ?_⟩
  have hsubmit (output : Option String) :
      (submit s { request with output := output }).outcome = .ok submission :=
    (outcome_submit hlimit).trans hprocess
  cases submission with
  | idle =>
      have hrun (output : Option String) := Store.run_of_printed
        (outcome_plan_of_idle hs (hsubmit output)) store kept
      simp only [hrun]
      simp [Submission.status]
  | invalid expression error =>
      have hrun (output : Option String) := Store.run_of_printed
        (outcome_plan_of_invalid hs (hsubmit output)) store kept
      simp only [hrun]
      simp [Submission.status]
  | ok canonical table =>
      obtain ⟨-, f, -, -, htable⟩ := htabulates _ _ rfl
      obtain ⟨grid, hgrid, -⟩ := htable.isFull.exists_grid htable.rows_ne_nil s
      have htarget : Plan.target { request with output := some path } = some path := by
        simp [Plan.target, hpath]
      obtain ⟨next, hsave, hcontent⟩ := hwritable (document s request.format grid)
      have hprinting := Store.run_of_printed ((outcome_plan_of_ok hs (hsubmit none) hgrid).trans
        (Plan.outcome_deliver_printed rfl s _ grid)) store kept
      have hsaving := Store.run_of_saved ((outcome_plan_of_ok hs (hsubmit (some path)) hgrid).trans
        (Plan.outcome_deliver_saved htarget s _ grid)) hsave
      dsimp only
      rw [hprinting, hsaving]
      refine ⟨rfl, rfl, rfl, fun _ => ⟨_, rfl, rfl, hcontent⟩, ?_⟩
      simp [Submission.status]

theorem output_path_moves_table_literal :
    let run (text : String) (output : Option String) :=
      perform {} .installed .empty ⟨text, .csv, output, some 20, none⟩ 20
    Folder.store.Writable .empty .csv "./t.csv" ∧
    (∃ document,
      (run " p" none).stdout = "The truth table of: p\n" ++ document ∧
      (run " p" (some "./t.csv")).stdout = "The truth table of: p\n" ∧
      (run " p" (some "./t.csv")).ending = .ok 0 ∧
      (run " p" (some "./t.csv")).folder.contentAt? "./t.csv" = some document) ∧
    (run "p q" none).stdout = "Invalid expression.\n" ∧
    (run "p q" (some "./t.csv")).stdout = "Invalid expression.\n" ∧
    (run "p q" (some "./t.csv")).ending = .ok 1 ∧
    (run "p q" (some "./t.csv")).folder = .empty := by
  intro run
  have hsegments : Path.segments "./t.csv" = ["t.csv"] := by decide +kernel
  have hwritable : Folder.store.Writable .empty .csv "./t.csv" :=
    Folder.writable (by decide) hsegments (by decide) (by decide +kernel) (by decide +kernel)
      (by decide) .empty .csv
  have hrun (text : String) (output : Option String) : run text output = _ :=
    Folder.perform_eq_run {} .installed .empty ⟨text, .csv, output, some 20, none⟩ 20
  have hp : isIdentifier "p" = true := by decide
  have hparse : (Expression.parse " p").outcome =
      .ok (some ⟨"p", [Token.ofText "p"], tokensOf " p"⟩) :=
    Expression.outcome_parse_eq_some_iff.mpr ⟨.atom "p", hp, by decide, rfl⟩
  refine ⟨hwritable, ?_, ?_⟩
  · obtain ⟨submission, hprocess, hending, hsame, -, hok, -⟩ :=
      output_path_moves_table Folder.store .empty {} (by decide)
        ⟨" p", .csv, none, some 20, none⟩ none rfl "./t.csv" (by decide) hwritable
    rw [Submission.outcome_process hparse] at hprocess
    obtain rfl := Except.ok.inj hprocess
    obtain ⟨document, hprinted, hsaved, hcontent⟩ := hok rfl
    simp only [hrun]
    exact ⟨document, hprinted, hsaved, hsame.trans hending, hcontent⟩
  · obtain ⟨submission, hprocess, hending, hsame, -, -, hnone⟩ :=
      output_path_moves_table Folder.store .empty {} (by decide)
        ⟨"p q", .csv, none, some 20, none⟩ none rfl "./t.csv" (by decide) hwritable
    have hblank : ¬Submission.IsBlank (some "p q") := by
      rw [Submission.isBlank_some_iff]
      decide
    obtain ⟨error, hinvalid⟩ := Submission.outcome_process_of_unfit hblank (by decide) {} none
    obtain rfl := Except.ok.inj (hprocess.symm.trans hinvalid)
    obtain ⟨hprinted, hsaved, hkept⟩ := hnone (.inr rfl)
    simp only [hrun]
    exact ⟨hprinted, hsaved, hsame.trans hending, hkept⟩

end CommandLine

end TruthTables
