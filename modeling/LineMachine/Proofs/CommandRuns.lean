import LineMachine.CommandLine.Command
import LineMachine.Proofs.Presentation
import LineMachine.Storage.Tree

/-! The command runs the machine. Flags go before the settings of a file and those before defaults;
what is run with them is the machine itself, and its output, its outcome and its state are all that
the command shows. -/
namespace LineMachine

/-- What a machine is started with, apart from its program and its streams. -/
structure Settings where
  gas : Int64
  /-- Zero leaves the random source as it is. -/
  seed : Int64
  prompt : Bytes
  color : Bytes

/-- A machine that was given its settings one by one. -/
def Settings.start (s : Settings) (p : Program) (input : Input) (random : Random) (debug : Bool) :
    Machine :=
  let m := { Machine.new p ⟨input, random, s.prompt, debug⟩ with color := Color.named s.color }
  let m := m.setGas s.gas
  if s.seed = 0 then m else m.seed s.seed

theorem Settings.start_eq (s : Settings) (p : Program) (input : Input) (random : Random)
    (debug : Bool) : s.start p input random debug = { Machine.new p
      ⟨input, if s.seed = 0 then random else Random.ofSeed s.seed, s.prompt, debug⟩ with
        color := Color.named s.color
        gas := s.gas
        maxGas := s.gas } := by
  unfold start
  split <;> rfl

theorem Config.load_eq_ok_iff {d : Disk} {file : Bytes} {c : Config} :
    load d file = .ok c ↔ ∃ s w, d.read file = .ok s ∧ parse? s = some w ∧ 0 ≤ w.gas ∧
      (Log.Level.named? w.level).isSome ∧ withDefaults { w with path := file } = c := by
  unfold load
  cases d.read file with
  | error q => simp
  | ok s =>
    cases hw : parse? s with
    | none => simp [hw]
    | some w =>
      by_cases hgas : w.gas < 0
      · simp [hw, hgas, Int64.not_le.mpr hgas]
      · cases hlevel : Log.Level.named? w.level with
        | none => simp [hw, hlevel, hgas]
        | some l => simp [hw, hlevel, hgas, Int64.not_lt.mp hgas]

/-- Machines that look the same and compute the same have the same snapshot. -/
theorem Machine.Alike.ofMachine_eq {m m' : Machine} (h : Alike True m m') :
    Snapshot.ofMachine m' = Snapshot.ofMachine m := by
  have hcolor : m'.color = m.color := (h.looks trivial).1
  rw [h.computation]
  simp only [Snapshot.ofMachine, shownAs, hcolor]

namespace CommandLine

/-- The file that has the settings for a program, if there is one. -/
def settingsFile (o : Options) (path : Bytes) : Bytes :=
  if o.config = [] then Path.sibling path Config.fileName else o.config

/-- Where the settings for a program come from. A file that was asked for has to be there; one next
to the program need not be. -/
inductive Configured (d : Disk) (o : Options) (path : Bytes) : Config → Prop where
  | written (s : Bytes) (c : Config) : (o.config = [] → d.stat (settingsFile o path) = none) →
      d.read (settingsFile o path) = .ok s → Config.parse? s = some c → 0 ≤ c.gas →
      (Log.Level.named? c.level).isSome →
      Configured d o path (Config.withDefaults { c with path := settingsFile o path })
  | absent (q : Disk.Problem) : o.config = [] → d.stat (settingsFile o path) = some q →
      q.reason = .missing → Configured d o path (Config.withDefaults {})

/-- What the command shows of a run of a machine that came to an end. -/
structure Shows (d : Disk) (snapshot : Bytes) (outcome : Outcome) (m : Machine) (r : Result) :
    Prop where
  stdout : r.stdout = m.output.toList
  success : outcome = .finished → r.code = 0
  failure : ∀ n, outcome = .exhausted n → r.code = 1
  saved : snapshot ≠ [] → d.create snapshot = none →
    r.written = some (snapshot, (Snapshot.ofMachine m).encode)
  unsaved : snapshot = [] ∨ (d.create snapshot).isSome → r.written = none

variable {d : Disk} {args : List Bytes} {o : Options} {c : Config} {p : Program}
variable {path source : Bytes} {input : Input} {random : Random}

/-- Only a file next to the program is looked for before it is read. -/
theorem loadConfig_eq (d : Disk) (o : Options) (path : Bytes) : loadConfig d o path =
    match if o.config = [] then d.stat (settingsFile o path) else none with
    | none => Config.load d (settingsFile o path)
    | some q => if q.reason = .missing then .ok Config.default else .error (.hidden q) := by
  unfold loadConfig settingsFile
  split <;> rfl

theorem loadConfig_eq_ok_iff : loadConfig d o path = .ok c ↔ Configured d o path c := by
  rw [loadConfig_eq]
  constructor
  · intro h
    cases hstat : if o.config = [] then d.stat (settingsFile o path) else none with
    | none =>
      rw [hstat] at h
      obtain ⟨s, w, hread, hparse, hgas, hlevel, rfl⟩ := Config.load_eq_ok_iff.mp h
      exact .written s w (by simpa using hstat) hread hparse hgas hlevel
    | some q =>
      obtain ⟨hplain, hfound⟩ : o.config = [] ∧ d.stat (settingsFile o path) = some q := by
        simpa using hstat
      by_cases hmissing : q.reason = .missing
      · simp only [hstat, if_pos hmissing] at h
        cases h
        exact .absent q hplain hfound hmissing
      · simp [hstat, hmissing] at h
  · rintro (⟨s, w, hstat, hread, hparse, hgas, hlevel⟩ | ⟨q, hplain, hstat, hmissing⟩)
    · have hnone : (if o.config = [] then d.stat (settingsFile o path) else none) = none := by
        simpa using hstat
      rw [hnone]
      exact Config.load_eq_ok_iff.mpr ⟨s, w, hread, hparse, hgas, hlevel, rfl⟩
    · rw [if_pos hplain, hstat]
      exact if_pos hmissing

/-- The settings for diagnostics only show in the journal. -/
theorem alike_machine (p : Program) (o : Options) (c : Config) (input : Input) (random : Random)
    (debug : Bool) : Machine.Alike True
      (Settings.start ⟨gasLimit o c, seed o c, c.prompt, c.color⟩ p input random debug)
      (machine p o c input random) := by
  have hreports : (machine p o c input random).reports = #[] := by
    simp [Machine.reports, machine, Machine.setGas, loadedRecord]
  rw [Settings.start_eq]
  exact ⟨rfl, hreports, fun _ => ⟨rfl, rfl, rfl⟩⟩

theorem plan_eq_start (hargs : parse {} args = .ok (.run o [path])) (hinspect : o.inspect = [])
    (hdisasm : o.disasm = false) (hconfig : loadConfig d o path = .ok c)
    (hsource : d.read path = .ok source) (hprogram : Program.load path source = .ok p)
    (input : Input) (random : Random) :
    plan d args input random = .start ⟨machine p o c input random,
      ⟨threshold o c, Log.Format.named c.format⟩, o.snapshot⟩ := by
  have hfile : loadFile d path = .ok p := by
    rw [loadFile, hsource]
    exact congrArg (Except.mapError (LoadProblem.malformed path)) hprogram
  simp [plan, planFile, hargs, hinspect, hdisasm, hconfig, hfile]

theorem shows_finish {outcome : Outcome} {m m' : Machine} (s : Start)
    (h : Machine.Alike True m m') : Shows d s.snapshot outcome m (finish d s outcome m') where
  stdout := by
    rw [← (h.looks trivial).2.2]
    rfl
  success := by
    rintro rfl
    rfl
  failure := by
    rintro n rfl
    rfl
  saved := by
    intro hasked hcreate
    simp [finish, hasked, hcreate, h.ofMachine_eq]
  unsaved := by
    rintro (hempty | hproblem)
    · simp [finish, hempty]
    · by_cases hempty : s.snapshot = []
      · simp [finish, hempty]
      · simp [finish, hempty, hproblem]

/-- A machine that runs alike shows what the command shows. -/
theorem shows_run {s : Start} {m : Machine} (hplan : plan d args input random = .start s)
    (hm : Machine.Alike True m s.machine) (n : Nat) :
    Shows d s.snapshot (m.runFor n).1 (m.runFor n).2 (run n d args input random) := by
  obtain ⟨houtcome, hend⟩ := (Machine.lockstep_alike True).runFor hm n
  have hrun : run n d args input random = finish d s (m.runFor n).1 (s.machine.runFor n).2 := by
    rw [← houtcome, run, hplan]
  rw [hrun]
  exact shows_finish s hend

/-- Nothing is created before a run has ended, and then it is too late to matter. -/
theorem run_create (n : Nat) (d : Disk) (args : List Bytes) (input : Input) (random : Random)
    (create : Bytes → Option Disk.Problem) :
    let r := run n d args input random
    let r' := run n { d with create := create } args input random
    r'.stdout = r.stdout ∧ r'.code = r.code := by
  have hplan : plan { d with create := create } args input random = plan d args input random := rfl
  intro r r'
  unfold r r' run
  rw [hplan]
  cases plan d args input random with
  | done result => exact ⟨rfl, rfl⟩
  | start s => exact ⟨rfl, rfl⟩

/-- A command with one program starts the machine with the settings of flags, file and defaults, writes what the
machine writes, and ends with it, in failure only for lack of gas. A snapshot that was asked for is written in
both cases if its file can be created. -/
theorem run_refines_machine (hargs : parse {} args = .ok (.run o [path])) (hinspect : o.inspect = [])
    (hdisasm : o.disasm = false) (hconfig : loadConfig d o path = .ok c)
    (hsource : d.read path = .ok source) (hprogram : Program.load path source = .ok p)
    (input : Input) (random : Random) (debug : Bool) :
    let s : Settings := {
      gas := if 0 ≤ o.gas then o.gas else c.gas
      seed := if o.seed ≠ 0 then o.seed else c.seed
      prompt := c.prompt
      color := c.color }
    let m := s.start p input random debug
    Configured d o path c ∧
      (∀ n, (run n d args input random).stdout = (m.runFor n).2.output.toList) ∧
      ∀ outcome e, m.Ends outcome e → ∃ n, ∀ k ≥ n,
        let r := run k d args input random
        Shows d o.snapshot outcome e r ∧
          ∀ create, let r' := run k { d with create := create } args input random
            r'.stdout = r.stdout ∧ r'.code = r.code := by
  intro s m
  have hplan := plan_eq_start hargs hinspect hdisasm hconfig hsource hprogram input random
  have hshows (n : Nat) :
      Shows d o.snapshot (m.runFor n).1 (m.runFor n).2 (run n d args input random) :=
    shows_run hplan (alike_machine p o c input random debug) n
  refine ⟨loadConfig_eq_ok_iff.mp hconfig, fun n => (hshows n).stdout, ?_⟩
  rintro outcome e ⟨hended, n, hn⟩
  refine ⟨n, fun k hk => ⟨?_, run_create k d args input random⟩⟩
  obtain ⟨j, rfl⟩ := Nat.exists_eq_add_of_le hk
  have hend := hshows (n + j)
  rw [Machine.runFor_add_of_ended hn hended] at hend
  exact hend

/-- A run with the gas of a flag, the seed and the color of a file, and the prompt by default. The gas
does not last, and the snapshot is written all the same. -/
theorem run_refines_machine_exhausted :
    let source := text "[\n# hi\n]"
    let d := (Tree.ofFiles [(text "loop", source),
      (text "mpp.toml", text "[run]\nseed = 7\ngas = 9\n[output]\ncolor = \"red\"")]).disk
    let args := ["-gas", "4", "-snapshot", "out", "loop"].map text
    ∃ p, Program.load (text "loop") source = .ok p ∧
      let m := Settings.start ⟨4, 7, text "> ", text "red"⟩ p ⟨[], none⟩ (.scripted []) false
      ∃ e n, m.Ends (.exhausted 4) e ∧ ∀ k ≥ n,
        let r := run k d args ⟨[], none⟩ (.scripted [])
        r.stdout = e.output.toList ∧ r.code = 1 ∧
          r.written = some (text "out", (Snapshot.ofMachine e).encode) := by
  intro source d args
  obtain ⟨p, hp, hoc⟩ := Program.exists_of_loads
    (P := fun p => ((Settings.start ⟨4, 7, text "> ", text "red"⟩ p ⟨[], none⟩ (.scripted [])
      false).runFor 9).1 = .exhausted 4)
    (text "loop") source (by decide +kernel)
  refine ⟨p, hp, ?_⟩
  intro m
  have hends : m.Ends (.exhausted 4) (m.runFor 9).2 := ⟨by decide, 9, Prod.ext hoc rfl⟩
  let o : Options := { gas := 4, snapshot := text "out" }
  let c : Config := ⟨9, 7, text "> ", text "red", text "warn", text "text", text "mpp.toml"⟩
  have hargs : parse {} args = .ok (.run o [text "loop"]) := rfl
  have hconfig : loadConfig d o (text "loop") = .ok c := rfl
  obtain ⟨-, -, h⟩ := run_refines_machine hargs rfl rfl hconfig rfl hp ⟨[], none⟩ (.scripted []) false
  obtain ⟨n, hn⟩ := h _ _ hends
  refine ⟨_, n, hends, fun k hk => ?_⟩
  have hshows := (hn k hk).1
  exact ⟨hshows.stdout, hshows.failure 4 rfl, hshows.saved (by decide) (by decide +kernel)⟩

end CommandLine
end LineMachine
