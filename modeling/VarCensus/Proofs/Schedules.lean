import Mathlib.Data.List.Nodup
import VarCensus.Command.Run

/-!
# Results do not depend on the schedule

Workers get done in any order, so a schedule is any list of events. What no event can change is the work that
is there altogether: the results sent, those of the tasks that workers are at, and those of the tasks that
wait. These are the `prospects` of a pool, and `step_prospects` says that a step only moves them around. When
all workers have finished the prospects are the results sent, since a worker finishes only when nothing waits,
and sorting by number restores the order of the tasks.

The last step needs a worker: a pool without workers is done from the start and has sent nothing. That is why
`workerCount` is never zero.

What the command then makes of the reports has one more way to fail than the files have: JSON wants every path to
be a text, and where one is none nothing is shown at all (`extract_fails_without_failed_report`).
-/

namespace VarCensus
namespace Pool

variable {α β : Type} {work : α → β} {pool : Pool α β}

/-! ## What a step keeps -/

/-- The tasks that workers are at. -/
def held (pool : Pool α β) : List (Nat × α) :=
  pool.workers.filterMap Worker.held?

/-- The result of a numbered task. -/
def answer (work : α → β) (entry : Nat × α) : Nat × β :=
  (entry.1, work entry.2)

/-- All results that there are or will be. -/
def prospects (work : α → β) (pool : Pool α β) : List (Nat × β) :=
  pool.sent ++ (pool.held ++ pool.waiting).map (answer work)

/-- A worker that has finished found no task waiting. -/
def Drained (pool : Pool α β) : Prop :=
  ∀ worker ∈ pool.workers, worker.isFinished = true → pool.waiting = []

theorem filterMap_cons_toList {γ δ : Type} (f : γ → Option δ) (a : γ) (l : List γ) :
    (a :: l).filterMap f = (f a).toList ++ l.filterMap f := by
  cases h : f a <;> simp [h]

/-- Putting a worker in another state exchanges the task of the one state for that of the other. -/
theorem held_put {i : Nat} {old : Worker α} (h : pool.workers[i]? = some old) (new : Worker α) :
    (new.held?.toList ++ pool.held).Perm (old.held?.toList ++ (pool.put i new).held) := by
  simp only [held, put]
  generalize pool.workers = workers at h
  induction workers generalizing i with
  | nil => simp at h
  | cons worker workers ih =>
    cases i with
    | zero =>
      simp only [List.getElem?_cons_zero, Option.some.injEq] at h
      subst h
      simp only [List.set_cons_zero, filterMap_cons_toList]
      exact List.perm_append_comm_assoc _ _ _
    | succ i =>
      simp only [List.getElem?_cons_succ] at h
      simp only [List.set_cons_succ, filterMap_cons_toList]
      -- the head is in the way on both sides
      calc new.held?.toList ++ (worker.held?.toList ++ workers.filterMap Worker.held?)
        _ |>.Perm (worker.held?.toList ++ (new.held?.toList ++ workers.filterMap Worker.held?)) :=
          List.perm_append_comm_assoc _ _ _
        _ |>.Perm (worker.held?.toList ++ (old.held?.toList ++ (workers.set i new).filterMap Worker.held?)) :=
          (ih h).append_left _
        _ |>.Perm (old.held?.toList ++ (worker.held?.toList ++ (workers.set i new).filterMap Worker.held?)) :=
          List.perm_append_comm_assoc _ _ _

theorem step_prospects (work : α → β) (pool : Pool α β) (event : Event) :
    (prospects work (step work pool event)).Perm (prospects work pool) := by
  cases event with
  | take i =>
    simp only [step]
    split
    · next number task rest hidle hwaiting =>
      have hheld := held_put hidle (.busy number task)
      simp only [Worker.held?, Option.toList_some, Option.toList_none, List.nil_append] at hheld
      simp only [prospects, hwaiting]
      refine List.Perm.append_left _ (List.Perm.map _ ?_)
      calc (pool.put i (.busy number task)).held ++ rest
        _ |>.Perm ([(number, task)] ++ pool.held ++ rest) := hheld.symm.append_right rest
        _ |>.Perm (pool.held ++ (number, task) :: rest) := List.perm_middle.symm
    · next hidle hwaiting =>
      have hheld := held_put hidle .finished
      simp only [Worker.held?, Option.toList_none, List.nil_append] at hheld
      exact List.Perm.append_left _ (List.Perm.map _ (hheld.symm.append_right _))
    · exact List.Perm.refl _
  | send i =>
    simp only [step]
    split
    · next number task hbusy =>
      have hheld := held_put hbusy .idle
      simp only [Worker.held?, Option.toList_some, Option.toList_none, List.nil_append] at hheld
      simp only [prospects, List.append_assoc]
      refine List.Perm.append_left _ ?_
      have hmap := (hheld.append_right pool.waiting).map (answer work)
      exact hmap.symm
    · exact List.Perm.refl _

theorem mem_put {i : Nat} {worker new : Worker α} (h : worker ∈ (pool.put i new).workers) :
    worker = new ∨ worker ∈ pool.workers := by
  rcases List.mem_or_eq_of_mem_set h with h | h
  · exact Or.inr h
  · exact Or.inl h

theorem Drained.step (h : pool.Drained) (work : α → β) (event : Event) : (step work pool event).Drained := by
  cases event with
  | take i =>
    simp only [Pool.step]
    split
    · next number task rest hidle hwaiting =>
      intro worker hmem hfinished
      rcases mem_put hmem with rfl | hmem
      · cases hfinished
      · have := h worker hmem hfinished
        simp [hwaiting] at this
    · next hidle hwaiting => exact fun _ _ _ => hwaiting
    · exact h
  | send i =>
    simp only [Pool.step]
    split
    · next number task hbusy =>
      intro worker hmem hfinished
      rcases mem_put hmem with rfl | hmem
      · cases hfinished
      · exact h worker hmem hfinished
    · exact h

theorem length_workers_step (work : α → β) (pool : Pool α β) (event : Event) :
    (step work pool event).workers.length = pool.workers.length := by
  cases event with
  | take i => simp only [step]; split <;> simp [put]
  | send i => simp only [step]; split <;> simp [put]

/-! ## What a run keeps -/

theorem run_cons (work : α → β) (pool : Pool α β) (event : Event) (schedule : List Event) :
    pool.run work (event :: schedule) = (pool.step work event).run work schedule := rfl

theorem run_append (work : α → β) (pool : Pool α β) (schedule schedule' : List Event) :
    pool.run work (schedule ++ schedule') = (pool.run work schedule).run work schedule' :=
  List.foldl_append

theorem run_prospects (work : α → β) (pool : Pool α β) (schedule : List Event) :
    (prospects work (pool.run work schedule)).Perm (prospects work pool) := by
  induction schedule generalizing pool with
  | nil => exact List.Perm.refl _
  | cons event schedule ih => exact (ih _).trans (step_prospects work pool event)

theorem Drained.run (h : pool.Drained) (work : α → β) (schedule : List Event) :
    (pool.run work schedule).Drained := by
  induction schedule generalizing pool with
  | nil => exact h
  | cons event schedule ih => exact ih (h.step work event)

theorem length_workers_run (work : α → β) (pool : Pool α β) (schedule : List Event) :
    (pool.run work schedule).workers.length = pool.workers.length := by
  induction schedule generalizing pool with
  | nil => rfl
  | cons event schedule ih => rw [run_cons, ih, length_workers_step]

/-! ## What is left in the end -/

/-- When all workers have finished, and there is one, all prospects have been sent. -/
theorem prospects_of_isDone (hdone : pool.isDone = true) (hdrained : pool.Drained)
    (hworkers : pool.workers ≠ []) : prospects work pool = pool.sent := by
  simp only [isDone, List.all_eq_true] at hdone
  have hheld : pool.held = [] := by
    refine List.filterMap_eq_nil_iff.mpr fun worker hmem => ?_
    have hfinished := hdone worker hmem
    cases worker with
    | finished => rfl
    | idle => cases hfinished
    | busy number task => cases hfinished
  obtain ⟨worker, hmem⟩ := List.exists_mem_of_ne_nil _ hworkers
  have hwaiting := hdrained worker hmem (hdone worker hmem)
  simp [prospects, hheld, hwaiting]

theorem prospects_start (work : α → β) (workers : Nat) (tasks : List α) :
    prospects work (start workers tasks) = (List.range tasks.length).zip (tasks.map work) := by
  have hheld : (start workers tasks : Pool α β).held = [] := by
    refine List.filterMap_eq_nil_iff.mpr fun worker hmem => ?_
    rw [List.eq_of_mem_replicate hmem]
    rfl
  rw [prospects, hheld, start, List.zip_map_right]
  simp only [List.nil_append]
  rfl

/-- Results that carry the numbers of their tasks, in any order, are put into the order of the tasks. -/
theorem results_of_perm {answers : List β}
    (h : pool.sent.Perm ((List.range answers.length).zip answers)) : pool.results = answers := by
  have hlength : (List.range answers.length).length = answers.length := List.length_range
  have hnumbers : ((List.range answers.length).zip answers).Pairwise (fun a b => a.1 < b.1) := by
    rw [← List.pairwise_map (f := Prod.fst) (R := (· < ·)), List.map_fst_zip (Nat.le_of_eq hlength)]
    exact List.pairwise_lt_range
  have hsorted : (pool.sent.mergeSort fun a b => a.1 ≤ b.1).Pairwise (fun a b => a.1 ≤ b.1) := by
    refine (List.pairwise_mergeSort ?_ ?_ pool.sent).imp of_decide_eq_true
    · intro a b c hab hbc
      exact decide_eq_true (Nat.le_trans (of_decide_eq_true hab) (of_decide_eq_true hbc))
    · intro a b
      simpa using Nat.le_total a.1 b.1
  have heq : (pool.sent.mergeSort fun a b => a.1 ≤ b.1) = (List.range answers.length).zip answers := by
    have hperm := (List.mergeSort_perm pool.sent fun a b => a.1 ≤ b.1).trans h
    refine hperm.eq_of_pairwise ?_ hsorted (hnumbers.imp Nat.le_of_lt)
    -- two results with one number are one result, since numbers are given out once
    intro a b ha hb hab hba
    have hmem := hperm.mem_iff.mp ha
    refine List.inj_on_of_nodup_map ?_ hmem hb (Nat.le_antisymm hab hba)
    rw [List.map_fst_zip (Nat.le_of_eq hlength)]
    exact List.nodup_range
  rw [results, heq, List.map_snd_zip (Nat.le_of_eq hlength.symm)]

/-- **All schedules agree.** Whatever the workers do and in whatever order, once all have finished there is
one result for each task, in the order of the tasks. -/
theorem results_of_isDone {workers : Nat} (hworkers : 0 < workers) (tasks : List α) {schedule : List Event}
    (hdone : ((start workers tasks).run work schedule).isDone = true) :
    ((start workers tasks).run work schedule).results = tasks.map work := by
  have hstart : (start workers tasks : Pool α β).Drained := by
    intro worker hmem hfinished
    rw [List.eq_of_mem_replicate hmem] at hfinished
    cases hfinished
  have hlength := length_workers_run work (start workers tasks) schedule
  have hne : ((start workers tasks).run work schedule).workers ≠ [] := by
    intro hnil
    rw [hnil, start, List.length_replicate] at hlength
    exact Nat.ne_of_lt hworkers hlength
  have hperm := run_prospects work (start workers tasks) schedule
  rw [prospects_of_isDone hdone (hstart.run work schedule) hne, prospects_start] at hperm
  refine results_of_perm ?_
  rwa [List.length_map]

/-- Without workers all is done and nothing is sent. -/
example : ((start 0 [1, 2, 3]).run (· + 1) [.take 0, .send 0]).isDone = true ∧
    ((start 0 [1, 2, 3]).run (· + 1) [.take 0, .send 0]).sent = [] := by
  decide

/-! ## Taking turns -/

/-- Workers that are all idle are so again after one of them has done a task. -/
theorem run_turn (work : α → β) {workers i : Nat} (hi : i < workers) (entry : Nat × α) (rest : List (Nat × α))
    (sent : List (Nat × β)) :
    Pool.run work ⟨entry :: rest, List.replicate workers .idle, sent⟩ [.take i, .send i] =
      ⟨rest, List.replicate workers .idle, sent ++ [answer work entry]⟩ := by
  obtain ⟨number, task⟩ := entry
  simp [run, step, put, hi, answer]

theorem run_flatMap_turn (work : α → β) {workers : Nat} (hworkers : 0 < workers) (numbers : List Nat)
    (waiting : List (Nat × α)) (sent : List (Nat × β)) (hlength : numbers.length = waiting.length) :
    Pool.run work ⟨waiting, List.replicate workers .idle, sent⟩
        (numbers.flatMap fun n => [.take (n % workers), .send (n % workers)]) =
      ⟨[], List.replicate workers .idle, sent ++ waiting.map (answer work)⟩ := by
  induction numbers generalizing waiting sent with
  | nil =>
    have hnil : waiting = [] := List.length_eq_zero_iff.mp hlength.symm
    simp [hnil, run]
  | cons n numbers ih =>
    cases waiting with
    | nil => simp at hlength
    | cons entry rest =>
      rw [List.flatMap_cons, run_append, run_turn work (Nat.mod_lt n hworkers) entry rest sent,
        ih rest _ (by simpa using hlength)]
      simp

/-- When nothing waits, workers that look for a task finish one after the other. -/
theorem run_finish (work : α → β) (workers : Nat) (sent : List (Nat × β)) {count : Nat} (h : count ≤ workers) :
    Pool.run work ⟨[], List.replicate workers .idle, sent⟩ ((List.range count).map .take) =
      ⟨[], List.replicate count .finished ++ List.replicate (workers - count) .idle, sent⟩ := by
  induction count with
  | zero => simp [run]
  | succ count ih =>
    obtain ⟨more, rfl⟩ : ∃ more, workers = count + 1 + more := ⟨workers - (count + 1), by omega⟩
    have hidle : count + 1 + more - count = more + 1 := by omega
    rw [List.range_succ, List.map_append, run_append, ih (by omega), hidle, List.replicate_succ,
      List.replicate_succ']
    simp [run, step, put]

theorem isDone_turns (work : α → β) {workers : Nat} (hworkers : 0 < workers) (tasks : List α) :
    ((start workers tasks).run work (turns workers tasks.length)).isDone = true := by
  rw [turns, run_append, start, run_flatMap_turn work hworkers _ _ _ (by simp),
    run_finish work workers _ (Nat.le_refl workers)]
  simp [isDone, Worker.isFinished]

end Pool

theorem workerCount_pos (wanted tasks : Nat) : 0 < workerCount wanted tasks := by
  unfold workerCount
  omega

/-- Workers that take turns give the result of each task in the order of the tasks. -/
theorem gather_eq_map {α β : Type} {workers : Nat} (hworkers : 0 < workers) (work : α → β) (tasks : List α) :
    gather workers work tasks = tasks.map work :=
  Pool.results_of_isDone hworkers tasks (Pool.isDone_turns work hworkers tasks)

/-! ## Extraction by workers -/

/-- A report reads only the file of its task. -/
theorem Report.ofTask_congr {files files' : Files} {task : Task} (limit : Nat)
    (h : files'.read task.path = files.read task.path) :
    Report.ofTask files' limit task = Report.ofTask files limit task := by
  simp [Report.ofTask, Files.extract, h]

/-- JSON cannot be made of reports exactly if the path of one of them is no text. -/
theorem Report.mapM_toJson?_eq_none_iff {reports : List Report} :
    reports.mapM Report.toJson? = none ↔ ∃ report ∈ reports, report.task.path.text? = none := by
  induction reports with
  | nil => simp
  | cons report reports ih =>
    rw [List.exists_mem_cons_iff, ← ih, List.mapM_cons, Report.toJson?]
    cases report.task.path.text? with
    | none => simp
    | some text => cases reports.mapM Report.toJson? <;> simp

/-- Reports are concluded with a failure if one of them is one, and as JSON also if the path of one is no text. -/
theorem Run.conclude_isSome_iff (theme : Theme) (reports : List Report) (format : Format) :
    (Run.conclude theme reports format).2.isSome = true ↔
      (∃ report ∈ reports, report.isFailed = true) ∨
        format = .json ∧ ∃ report ∈ reports, report.task.path.text? = none := by
  have hfailed : (∃ report ∈ reports, report.isFailed = true) ↔ Report.failures reports ≠ 0 := by
    rw [← List.countP_pos_iff, Nat.pos_iff_ne_zero]
    rfl
  rw [hfailed, ← Report.mapM_toJson?_eq_none_iff]
  unfold Run.conclude
  cases format with
  | text => by_cases h : Report.failures reports = 0 <;> simp [h]
  | json =>
    cases reports.mapM Report.toJson? with
    | none => simp
    | some items => by_cases h : Report.failures reports = 0 <;> simp [h]

theorem Run.conclude_json_of_notText (theme : Theme) {reports : List Report}
    (h : ∃ report ∈ reports, report.task.path.text? = none) :
    Run.conclude theme reports .json = (Output.none, some .notText) := by
  rw [Run.conclude, Report.mapM_toJson?_eq_none_iff.mpr h]

theorem Run.command_extract (theme : Theme) {files : Files} {config : Config} {paths : List Path}
    {language : Option String} {tasks : List Task} (h : Run.tasksOf files config paths language = .ok tasks)
    (place : Path) (format : Format) (jobs : Option Nat) :
    Run.command theme files config place (.extract paths language format jobs) =
      ⟨files, (Run.conclude theme (tasks.map (Report.ofTask files config.limit)) format).1,
        (Run.conclude theme (tasks.map (Report.ofTask files config.limit)) format).2⟩ := by
  simp only [Run.command, h, Run.showTasks, Report.ofTasks]
  rw [gather_eq_map (workerCount_pos _ _)]

/-- The work on tasks after a schedule, by as many workers as are wanted and useful. -/
def Report.underway (files : Files) (limit wanted : Nat) (tasks : List Task) (schedule : List Pool.Event) :
    Pool Task Report :=
  (Pool.start (workerCount wanted tasks.length) tasks).run (Report.ofTask files limit) schedule

theorem Report.results_underway {files : Files} {limit wanted : Nat} {tasks : List Task}
    {schedule : List Pool.Event} (h : (Report.underway files limit wanted tasks schedule).isDone = true) :
    (Report.underway files limit wanted tasks schedule).results = tasks.map (Report.ofTask files limit) :=
  Pool.results_of_isDone (workerCount_pos _ _) tasks h

/-- **Extraction by workers is extraction task by task.** Say the tasks of a command have been collected, and
take any schedule of the workers after which all of them have finished, however many were wanted. The reports
are those of the tasks in their order. On files that differ in what one path holds, any schedule gives the same
reports for all other paths. The command shows these reports. It fails exactly when one of them is a failure, or
when JSON is asked for and the path of a task is no text; and then it shows none of them. -/
theorem extract_reports_of_schedule (theme : Theme) {files : Files} {config : Config} {paths : List Path}
    {language : Option String} {tasks : List Task} (htasks : Run.tasksOf files config paths language = .ok tasks)
    (wanted : Nat) (schedule : List Pool.Event)
    (hdone : (Report.underway files config.limit wanted tasks schedule).isDone = true) :
    (Report.underway files config.limit wanted tasks schedule).results =
        tasks.map (Report.ofTask files config.limit) ∧
      (∀ (files' : Files) (path : Path), (∀ other, other ≠ path → files'.read other = files.read other) →
        ∀ (wanted' : Nat) (schedule' : List Pool.Event),
          (Report.underway files' config.limit wanted' tasks schedule').isDone = true →
          ∀ (i : Nat) (task : Task), tasks[i]? = some task → task.path ≠ path →
            (Report.underway files' config.limit wanted' tasks schedule').results[i]? =
              (Report.underway files config.limit wanted tasks schedule).results[i]?) ∧
      ∀ (place : Path) (format : Format) (jobs : Option Nat),
        let ended := Run.command theme files config place (.extract paths language format jobs)
        ended.output =
            (Run.conclude theme (Report.underway files config.limit wanted tasks schedule).results format).1 ∧
          (ended.failure.isSome = true ↔
            (∃ report ∈ (Report.underway files config.limit wanted tasks schedule).results,
              report.isFailed = true) ∨
            format = .json ∧ ∃ task ∈ tasks, task.path.text? = none) ∧
          (format = .json → (∃ task ∈ tasks, task.path.text? = none) →
            ended.output = Output.none ∧ ended.failure = some .notText) := by
  have hresults := Report.results_underway hdone
  refine ⟨hresults, ?_, ?_⟩
  · intro files' path hsame wanted' schedule' hdone' i task hi hpath
    rw [hresults, Report.results_underway hdone']
    simp only [List.getElem?_map, hi, Option.map_some]
    rw [Report.ofTask_congr config.limit (hsame task.path hpath)]
  · intro place format jobs
    have hpaths : (∃ report ∈ tasks.map (Report.ofTask files config.limit), report.task.path.text? = none) ↔
        ∃ task ∈ tasks, task.path.text? = none := by
      simp [Report.ofTask]
    rw [hresults, Run.command_extract theme htasks, ← hpaths]
    refine ⟨rfl, Run.conclude_isSome_iff theme _ format, ?_⟩
    rintro rfl hnone
    rw [Run.conclude_json_of_notText theme hnone]
    exact ⟨rfl, rfl⟩

/-- Two files, of which the second is no text. -/
def textAndNoise : Files :=
  ⟨.directory [("a.py", .file "x = 1".toUTF8 none), ("b.py", .file ⟨#[0xFF]⟩ none)]⟩

theorem extract_reports_of_schedule_textAndNoise :
    Run.tasksOf textAndNoise .empty ["a.py", "b.py"] none = .ok [⟨"a.py", .python⟩, ⟨"b.py", .python⟩] ∧
    (Report.underway textAndNoise Config.empty.limit 8 [⟨"a.py", .python⟩, ⟨"b.py", .python⟩]
      [.take 1, .take 0, .send 0, .take 0, .send 1, .take 1]).isDone = true ∧
    (Report.underway textAndNoise Config.empty.limit 8 [⟨"a.py", .python⟩, ⟨"b.py", .python⟩]
      [.take 1, .take 0, .send 0, .take 0, .send 1, .take 1]).results =
        [⟨"a.py", .python⟩, ⟨"b.py", .python⟩].map (Report.ofTask textAndNoise Config.empty.limit) ∧
    (Run.command Theme.plain textAndNoise .empty "" (.extract ["a.py", "b.py"] none .json none)).failure.isSome =
      true := by
  have htasks : Run.tasksOf textAndNoise .empty ["a.py", "b.py"] none =
      .ok [⟨"a.py", .python⟩, ⟨"b.py", .python⟩] := by rfl
  have hdone : (Report.underway textAndNoise Config.empty.limit 8 [⟨"a.py", .python⟩, ⟨"b.py", .python⟩]
      [.take 1, .take 0, .send 0, .take 0, .send 1, .take 1]).isDone = true := by rfl
  obtain ⟨hresults, -, hcommand⟩ := extract_reports_of_schedule Theme.plain htasks 8 _ hdone
  refine ⟨htasks, hdone, hresults, (hcommand "" .json none).2.1.mpr (Or.inl ?_)⟩
  rw [hresults]
  exact ⟨_, List.mem_cons_of_mem _ List.mem_cons_self, by rfl⟩

/-- A path that is no text: the name `café.py` in Latin-1. -/
def latinPath : Path :=
  "caf" ++ ⟨[0xE9]⟩ ++ ".py"

/-- Two files with the same text, of which the first has a name that is no text. -/
def latinName : Files :=
  ⟨.directory [(latinPath, .file "x = 1".toUTF8 none), ("ok.py", .file "x = 1".toUTF8 none)]⟩

/-- **No report is a failure, and the command fails**: JSON has no place for a path that is no text, so nothing is shown
of the other file either. As text both are shown. -/
theorem extract_fails_without_failed_report :
    ∃ tasks, Run.tasksOf latinName .empty [latinPath, "ok.py"] none = .ok tasks ∧
      (∀ report ∈ tasks.map (Report.ofTask latinName Config.empty.limit), report.isFailed = false) ∧
      (Run.command Theme.plain latinName .empty "" (.extract [latinPath, "ok.py"] none .json none)).failure =
        some .notText ∧
      (Run.command Theme.plain latinName .empty "" (.extract [latinPath, "ok.py"] none .json none)).output =
        Output.none ∧
      (Run.command Theme.plain latinName .empty "" (.extract [latinPath, "ok.py"] none .text none)).failure =
        none := by
  let tasks : List Task := [⟨latinPath, .python⟩, ⟨"ok.py", .python⟩]
  have htasks : Run.tasksOf latinName .empty [latinPath, "ok.py"] none = .ok tasks := by rfl
  have hsound : ∀ report ∈ tasks.map (Report.ofTask latinName Config.empty.limit), report.isFailed = false :=
    List.forall_mem_cons.mpr ⟨by rfl, List.forall_mem_singleton.mpr (by rfl)⟩
  have hlatin : ∃ report ∈ tasks.map (Report.ofTask latinName Config.empty.limit), report.task.path.text? = none :=
    ⟨_, List.mem_cons_self, by decide +kernel⟩
  refine ⟨tasks, htasks, hsound, ?_, ?_, ?_⟩
  · rw [Run.command_extract Theme.plain htasks, Run.conclude_json_of_notText Theme.plain hlatin]
  · rw [Run.command_extract Theme.plain htasks, Run.conclude_json_of_notText Theme.plain hlatin]
  · rw [Run.command_extract Theme.plain htasks, ← Option.not_isSome_iff_eq_none, Run.conclude_isSome_iff]
    rintro (⟨report, hreport, hfailed⟩ | ⟨hjson, -⟩)
    · rw [hsound report hreport] at hfailed
      cases hfailed
    · cases hjson

end VarCensus
