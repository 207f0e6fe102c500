import StyleHoist.Command.Run
import StyleHoist.Proofs.Project.Disk
import StyleHoist.Tool.Call

/-!
# What commands and tools do to files

A request is a command or a call of a tool. Both hosts make an extraction in the same way: they read, they come to an
outcome, and only then they may write (`Disk.Finishes`). So a request can do three things to a disk: nothing, create the
settings file, or give the named file the text that the same request shows where it does not apply.

- `Quiet.step_bind`: steps that only read may be put one after the other.
- `Disk.Comes`, `Disk.Finishes.comes`: how an extraction can go, for a host that writes last.
- `Disk.Faithful`, `Disk.answer_faithful`: what one request does to a disk.
- `history_faithful`: what any sequence of requests does.
-/

namespace StyleHoist

/-! ## Requests -/

/-- What a user or an agent asks for. -/
inductive Request
  | command (invocation : Command.Invocation)
  | call (tool : Tool) (parameters : Json)

/-- What a user or an agent gets. -/
inductive Response
  | command (result : Except Command.CommandFault Command.RunResult)
  | call (answer : Except CallFault Json)

/-- Answers a request. -/
def Request.run {m : Type → Type} [Monad m] (files : Files m) : Request → m Response
  | .command invocation => return .command (← Command.run files invocation)
  | .call tool parameters => return .call (← tool.call files parameters)

/-- The parameters of a tool in order. -/
def Tool.parameterNames : Tool → List String
  | .extractStyle => ["filePath", "line", "column", "name", "apply"]
  | .extractAllStyles => ["filePath", "apply"]
  | .inspectFile => ["filePath", "line"]
  | .getConfig => ["projectRootPath"]

/-- A parameter of a call. -/
def Tool.parameter? (tool : Tool) (name : String) (parameters : Json) : Option Json :=
  match parametersOf tool.parameterNames parameters with
  | .ok members => Json.get? name.toList members
  | .error _ => none

/-- The file that an extraction is to be made of. -/
def Request.file? : Request → Option Text
  | .command (.extract c) => some c.file
  | .command (.extractAll c) => some c.file
  | .call .extractStyle parameters => (Tool.extractStyle.parameter? "filePath" parameters).bind Json.text?
  | .call .extractAllStyles parameters => (Tool.extractAllStyles.parameter? "filePath" parameters).bind Json.text?
  | _ => none

/-- Whether an extraction is to be applied. -/
def Request.applies : Request → Bool
  | .command (.extract c) => c.apply
  | .command (.extractAll c) => c.apply
  | .call .extractStyle parameters => (Tool.extractStyle.parameter? "apply" parameters).bind Json.flag? == some true
  | .call .extractAllStyles parameters =>
    (Tool.extractAllStyles.parameter? "apply" parameters).bind Json.flag? == some true
  | _ => false

/-- The parameters of an extraction without the wish to apply it. -/
def Tool.unapplied (tool : Tool) : Json → Json
  | .object members => .object (members.filter fun m => m.1 != "apply".toList)
  | .array items => .array (items.take (tool.parameterNames.idxOf "apply"))
  | parameters => parameters

/-- The same request without the wish to apply it. -/
def Request.dry : Request → Request
  | .command (.extract c) => .command (.extract { c with apply := false })
  | .command (.extractAll c) => .command (.extractAll { c with apply := false })
  | .call .extractStyle parameters => .call .extractStyle (Tool.extractStyle.unapplied parameters)
  | .call .extractAllStyles parameters => .call .extractAllStyles (Tool.extractAllStyles.unapplied parameters)
  | r => r

/-- A member of an answer. -/
def Json.member? (name : String) : Json → Option Json
  | .object members => Json.get? name.toList members
  | _ => none

/-- Whether a request was done: no notice and no error is reported. -/
def Response.succeeded : Response → Bool
  | .command (.ok result) => result.status == .done
  | .command (.error _) => false
  | .call (.ok answer) => (answer.member? "status").bind Json.text? != some "notice".toList
  | .call (.error _) => false

/-- The new text that a command prints or a tool returns. -/
def Response.shown? : Response → Option Text
  | .command (.ok result) => some result.output
  | .call (.ok answer) => (answer.member? "text").bind Json.text?
  | _ => none

/-! ## Parameters -/

theorem get?_eq_none {key : Text} {ms : List (Text × Json)} (h : ∀ m ∈ ms, m.1 ≠ key) : Json.get? key ms = none := by
  induction ms with
  | nil => rfl
  | cons m ms ih =>
    obtain ⟨hm, hms⟩ := List.forall_mem_cons.1 h
    obtain ⟨k, v⟩ := m
    rw [Json.get?, if_neg (by simpa using hm), ih hms]

theorem get?_filter_of_ne {key other : Text} (h : key ≠ other) : ∀ ms : List (Text × Json),
    Json.get? key (ms.filter fun m => m.1 != other) = Json.get? key ms
  | [] => rfl
  | (k, v) :: ms => by
    have ih := get?_filter_of_ne h ms
    by_cases hk : k = other
    · have hne : (k == key) = false := by simpa [hk] using Ne.symm h
      rw [List.filter_cons_of_neg (by simpa using hk), ih, Json.get?, hne, if_neg Bool.false_ne_true]
    · rw [List.filter_cons_of_pos (by simpa using hk), Json.get?, Json.get?, ih]

theorem get?_zip_eq_none {key : Text} {names : List Text} (h : key ∉ names) (items : List Json) :
    Json.get? key (names.zip items) = none :=
  get?_eq_none fun _ hm heq => h (heq ▸ (List.of_mem_zip hm).1)

/-- A name that is not among the last ones has its value among the first ones. -/
theorem get?_zip_take {key : Text} {names : List Text} {k : Nat} (h : key ∉ names.drop k) (items : List Json) :
    Json.get? key (names.zip (items.take k)) = Json.get? key (names.zip items) := by
  induction k generalizing names items with
  | zero =>
    rw [List.drop_zero] at h
    rw [get?_zip_eq_none h, get?_zip_eq_none h]
  | succ k ih =>
    cases names with
    | nil => rfl
    | cons name names =>
      cases items with
      | nil => rfl
      | cons item items => rw [List.take_succ_cons, List.zip_cons_cons, List.zip_cons_cons, Json.get?, Json.get?, ih h]

theorem get?_zip_take_eq_none {key : Text} {names : List Text} {k : Nat} (h : key ∉ names.take k) (items : List Json) :
    Json.get? key (names.zip (items.take k)) = none := by
  refine get?_eq_none fun m hm heq => h ?_
  rw [List.zip_eq_zip_take_min] at hm
  have hname := (List.of_mem_zip hm).1
  rw [heq] at hname
  exact List.take_subset_take_left _ (by rw [List.length_take]; omega) hname
/-- Without the wish to apply an extraction the parameters are the same otherwise. -/
theorem parametersOf_unapplied (tool : Tool) {parameters : Json} {members : List (Text × Json)}
    (h : parametersOf tool.parameterNames parameters = .ok members) :
    ∃ others, parametersOf tool.parameterNames (tool.unapplied parameters) = .ok others ∧
      Json.get? "apply".toList others = none ∧
        ∀ name, name ≠ "apply".toList → Json.get? name others = Json.get? name members := by
  cases parameters with
  | object ms =>
    obtain rfl : ms = members := Except.ok.inj h
    refine ⟨_, rfl, get?_eq_none fun m hm => ?_, fun name hname => get?_filter_of_ne hname ms⟩
    simpa using (List.mem_filter.1 hm).2
  | array items =>
    rw [parametersOf] at h
    split at h
    · rename_i hlength
      obtain rfl := Except.ok.inj h
      -- The wish to apply is the last parameter, so that the others keep their places.
      have hlast : (tool.parameterNames.map String.toList).drop (tool.parameterNames.idxOf "apply") ⊆
          ["apply".toList] := by cases tool <;> decide
      have hfirst : "apply".toList ∉
          (tool.parameterNames.map String.toList).take (tool.parameterNames.idxOf "apply") := by
        cases tool <;> decide
      refine ⟨_, ?_, get?_zip_take_eq_none hfirst items, fun name hname => get?_zip_take ?_ items⟩
      · rw [Tool.unapplied, parametersOf, if_pos (by rw [List.length_take]; omega)]
      · exact fun hmem => hname (List.mem_singleton.1 (hlast hmem))
    · cases h
  | _ => cases h

theorem Tool.parameter?_unapplied (tool : Tool) (parameters : Json) :
    tool.parameter? "apply" (tool.unapplied parameters) = none := by
  cases parameters with
  | object ms => exact get?_eq_none fun m hm => by simpa using (List.mem_filter.1 hm).2
  | array items =>
    rw [parameter?, unapplied, parametersOf]
    split
    · rename_i hmembers
      split at hmembers
      · obtain rfl := Except.ok.inj hmembers
        refine get?_zip_take_eq_none ?_ items
        cases tool <;> decide
      · cases hmembers
    · rfl
  | _ => rfl

/-- What is asked for without the wish to apply it is not applied. -/
theorem Request.applies_dry (request : Request) : request.dry.applies = false := by
  cases request with
  | command invocation => cases invocation <;> rfl
  | call tool parameters => cases tool <;> simp [dry, applies, Tool.parameter?_unapplied]

/-! ## Steps that only read -/

theorem bind_eq_ok {ε α β : Type} {x : Except ε α} {f : α → Except ε β} {b : β} (h : x >>= f = .ok b) :
    ∃ a, x = .ok a ∧ f a = .ok b := by
  cases x with
  | ok a => exact ⟨a, rfl, h⟩
  | error fault => cases h

theorem liftM_ok {m : Type → Type} [Monad m] {ε α : Type} (a : α) :
    (liftM (Except.ok a : Except ε α) : ExceptT ε m α) = pure a :=
  rfl

theorem mapError_eq_ok {ε δ α : Type} {f : ε → δ} {r : Except ε α} {a : α} (h : r.mapError f = .ok a) : r = .ok a := by
  cases r with
  | ok b => exact congrArg Except.ok (Except.ok.inj h)
  | error fault => cases h

section

variable {σ ε α β : Type}

/-- A computation that leaves every state as it is. -/
def Quiet (x : StateM σ α) : Prop :=
  ∀ s, (x.run s).2 = s

theorem Quiet.pure (a : α) : Quiet (pure a : StateM σ α) :=
  fun _ => rfl

theorem Quiet.bind {x : StateM σ α} {f : α → StateM σ β} (hx : Quiet x) (hf : ∀ a, Quiet (f a)) : Quiet (x >>= f) :=
  fun s => (hf _ _).trans (hx s)

/-- Steps that may fail and only read may be put one after the other. -/
theorem Quiet.step_bind {x : ExceptT ε (StateM σ) α} {f : α → ExceptT ε (StateM σ) β} (hx : Quiet x.run)
    (hf : ∀ a, Quiet (f a).run) : Quiet (x >>= f).run := by
  change Quiet (x.run >>= ExceptT.bindCont f)
  refine Quiet.bind hx fun r => ?_
  cases r with
  | ok a => exact hf a
  | error fault => exact Quiet.pure _

theorem run_step_bind_ok {x : ExceptT ε (StateM σ) α} {s after : σ} {a : α} (hx : x.run.run s = (.ok a, after))
    (f : α → ExceptT ε (StateM σ) β) : (x >>= f).run.run s = (f a).run.run after := by
  change ExceptT.bindCont f (x.run.run s).1 (x.run.run s).2 = _
  rw [hx]
  rfl

theorem run_step_bind_error {x : ExceptT ε (StateM σ) α} {s after : σ} {fault : ε}
    (hx : x.run.run s = (.error fault, after)) (f : α → ExceptT ε (StateM σ) β) :
    (x >>= f).run.run s = (.error fault, after) := by
  change ExceptT.bindCont f (x.run.run s).1 (x.run.run s).2 = _
  rw [hx]
  rfl

/-- What is come to after a step that only reads is come to from what that step comes to, in the same state. -/
theorem Quiet.of_step_bind_ok {x : ExceptT ε (StateM σ) α} (hx : Quiet x.run) {f : α → ExceptT ε (StateM σ) β} {s : σ}
    {b : β} (h : ((x >>= f).run.run s).1 = .ok b) :
    ∃ a, (x.run.run s).1 = .ok a ∧ ((f a).run.run s).1 = .ok b := by
  cases hfirst : (x.run.run s).1 with
  | ok a =>
    rw [run_step_bind_ok (Prod.ext hfirst (hx s))] at h
    exact ⟨a, rfl, h⟩
  | error fault =>
    rw [run_step_bind_error (Prod.ext hfirst (hx s))] at h
    cases h

end

section

variable {σ : Type} {d : Disk σ}

theorem findSettingsFile_quiet (hd : d.WritesWhole) (fuel : Nat) (directory : String) :
    Quiet (findSettingsFile d.access fuel directory) := by
  induction fuel generalizing directory with
  | zero => exact Quiet.pure _
  | succ fuel ih =>
    refine Quiet.bind (hd.isThere_keeps _) fun isSettings => ?_
    split
    · exact Quiet.pure _
    · refine Quiet.bind (hd.isThere_keeps _) fun isRepository => ?_
      split
      · exact Quiet.pure _
      · split
        · exact ih _
        · exact Quiet.pure _

theorem readSettingsFile_quiet (hd : d.WritesWhole) (path : String) : Quiet (readSettingsFile d.access path) := by
  refine Quiet.bind (hd.read_keeps path) fun r => ?_
  split
  · exact Quiet.pure _
  · split
    · exact Quiet.pure _
    · split <;> exact Quiet.pure _

theorem loadSettings_quiet (hd : d.WritesWhole) (directory : String) : Quiet (loadSettings d.access directory) := by
  refine Quiet.bind (findSettingsFile_quiet hd _ _) fun path? => ?_
  split
  · exact Quiet.bind (readSettingsFile_quiet hd _) fun _ => Quiet.pure _
  · exact Quiet.pure _

end

/-! ## Commands -/

namespace Command

section

variable {m : Type → Type} [Monad m]

/-- What an extraction comes to, before anything is written. -/
def plan (files : Files m) (common : CommonArguments) (overrides : Overrides) (file : Text)
    (outcome : Text → Settings → Except ExtractionFault Outcome) : Step m Outcome := do
  let settings ← effectiveSettings files common overrides
  let t ← source files file
  attempt .extraction (pure (outcome t settings))

theorem extract_eq [LawfulMonad m] (files : Files m) (c : ExtractCommand) :
    extract files c = (plan files c.common c.overrides c.file fun t =>
      extractOne t (String.ofList c.file) (c.cursor.offsetIn t) c.name) >>= finish files c.file c.apply := by
  simp [extract, plan]

theorem extractAll_eq [LawfulMonad m] (files : Files m) (c : ExtractAllCommand) :
    extractAll files c = (plan files c.common c.overrides c.file fun t =>
      StyleHoist.extractAll t (String.ofList c.file)) >>= finish files c.file c.apply := by
  simp [extractAll, plan]

end

section

variable {σ : Type} {d : Disk σ}

theorem attempt_quiet {ε α : Type} {fault : ε → CommandFault} {action : StateM σ (Except ε α)} (h : Quiet action) :
    Quiet (attempt fault action).run :=
  Quiet.bind h fun _ => Quiet.pure _

theorem effectiveSettings_quiet (hd : d.WritesWhole) (common : CommonArguments) (overrides : Overrides) :
    Quiet (effectiveSettings d.access common overrides).run := by
  refine Quiet.step_bind (attempt_quiet (loadSettings_quiet hd _)) fun loaded => ?_
  dsimp only
  split <;> exact Quiet.pure _

theorem source_quiet (hd : d.WritesWhole) (file : Text) : Quiet (source d.access file).run :=
  attempt_quiet (hd.read_keeps _)

theorem plan_quiet (hd : d.WritesWhole) (common : CommonArguments) (overrides : Overrides) (file : Text)
    (outcome : Text → Settings → Except ExtractionFault Outcome) :
    Quiet (plan d.access common overrides file outcome).run :=
  Quiet.step_bind (effectiveSettings_quiet hd _ _) fun _ =>
    Quiet.step_bind (source_quiet hd _) fun _ => attempt_quiet (Quiet.pure _)

theorem inspect_quiet (hd : d.WritesWhole) (c : InspectCommand) : Quiet (inspect d.access c).run :=
  Quiet.step_bind (effectiveSettings_quiet hd _ _) fun _ =>
    Quiet.step_bind (source_quiet hd _) fun _ => Quiet.pure _

/-- An outcome is come to only from a file that can be read. -/
theorem read_of_plan (hd : d.WritesWhole) {common : CommonArguments} {overrides : Overrides} {file : Text}
    {outcome : Text → Settings → Except ExtractionFault Outcome} {s : σ} {o : Outcome}
    (h : ((plan d.access common overrides file outcome).run.run s).1 = .ok o) :
    ∃ t, ((d.access.read (String.ofList file)).run s).1 = .ok t := by
  obtain ⟨settings, -, h⟩ := (effectiveSettings_quiet hd _ _).of_step_bind_ok h
  obtain ⟨t, ht, -⟩ := (source_quiet hd _).of_step_bind_ok h
  exact ⟨t, mapError_eq_ok ht⟩

end

end Command

/-! ## Calls -/

namespace Tool

/-- What the parameters of an extraction ask for: the file, and what comes of its text and the settings. -/
def task (tool : Tool) (ps : List (Text × Json)) :
    Except CallFault (Text × (Text → Settings → Except ExtractionFault Outcome)) := do
  let path ← needed Json.text? ps "filePath"
  match tool with
  | .extractStyle =>
    let line ← needed Json.number32? ps "line"
    let column ← needed Json.number32? ps "column"
    let name ← optional Json.text? ps "name"
    return (path, fun t => extractOne t (String.ofList path) (Text.offsetAt t ⟨line - 1, column - 1⟩) name)
  | _ => return (path, fun t => StyleHoist.extractAll t (String.ofList path))

section

variable {m : Type → Type} [Monad m]

/-- What an extraction comes to, before anything is written. -/
def plan (files : Files m) (path : Text) (outcome : Text → Settings → Except ExtractionFault Outcome) :
    CallStep m Outcome := do
  let t ← readSource files path
  let settings ← settingsFor files path
  callStep .extraction (pure (outcome t settings))

/-- A call of a tool that extracts. -/
def extraction (files : Files m) (tool : Tool) (parameters : Json) : CallStep m Json := do
  let ps ← parametersOf tool.parameterNames parameters
  let (path, outcome) ← tool.task ps
  let apply ← optional Json.flag? ps "apply"
  plan files path outcome >>= finishCall files path (apply.getD false)

theorem callExtractStyle_eq [LawfulMonad m] (files : Files m) (parameters : Json) :
    callExtractStyle files parameters = extractStyle.extraction files parameters := by
  simp [callExtractStyle, extraction, task, plan, parameterNames]

theorem callExtractAllStyles_eq [LawfulMonad m] (files : Files m) (parameters : Json) :
    callExtractAllStyles files parameters = extractAllStyles.extraction files parameters := by
  simp [callExtractAllStyles, extraction, task, plan, parameterNames]

end

/-- A task is the same for the same parameters, whether the extraction is to be applied or not. -/
theorem task_congr (tool : Tool) {ps others : List (Text × Json)}
    (h : ∀ name, name ≠ "apply".toList → Json.get? name others = Json.get? name ps) :
    tool.task others = tool.task ps := by
  have hpath := h "filePath".toList (by decide)
  have hline := h "line".toList (by decide)
  have hcolumn := h "column".toList (by decide)
  have hname := h "name".toList (by decide)
  unfold task needed optional
  rw [hpath, hline, hcolumn, hname]

/-- A task is about the file that the parameters name. -/
theorem text?_of_task {tool : Tool} {ps : List (Text × Json)} {path : Text}
    {outcome : Text → Settings → Except ExtractionFault Outcome} (h : tool.task ps = .ok (path, outcome)) :
    (Json.get? "filePath".toList ps).bind Json.text? = some path := by
  unfold task needed at h
  cases hpath : (Json.get? "filePath".toList ps).bind Json.text? with
  | none =>
    rw [hpath] at h
    cases h
  | some t =>
    rw [hpath] at h
    cases tool with
    | extractStyle =>
      replace h : (do
        let line ← needed Json.number32? ps "line"
        let column ← needed Json.number32? ps "column"
        let name ← optional Json.text? ps "name"
        return (t, fun source =>
          extractOne source (String.ofList t) (Text.offsetAt source ⟨line - 1, column - 1⟩) name)) =
        Except.ok (path, outcome) := h
      obtain ⟨line, -, h⟩ := bind_eq_ok h
      obtain ⟨column, -, h⟩ := bind_eq_ok h
      obtain ⟨name, -, h⟩ := bind_eq_ok h
      obtain rfl := congrArg Prod.fst (Except.ok.inj h)
      rfl
    | _ => exact congrArg some (congrArg Prod.fst (Except.ok.inj h))

section

variable {σ : Type} {d : Disk σ}

theorem callStep_quiet {ε α : Type} {fault : ε → CallFault} {action : StateM σ (Except ε α)} (h : Quiet action) :
    Quiet (callStep fault action).run :=
  Quiet.bind h fun _ => Quiet.pure _

theorem readSource_quiet (hd : d.WritesWhole) (path : Text) : Quiet (readSource d.access path).run :=
  callStep_quiet (hd.read_keeps _)

theorem settingsFor_quiet (hd : d.WritesWhole) (path : Text) : Quiet (settingsFor d.access path).run :=
  Quiet.step_bind (callStep_quiet (loadSettings_quiet hd _)) fun _ => Quiet.pure _

theorem plan_quiet (hd : d.WritesWhole) (path : Text) (outcome : Text → Settings → Except ExtractionFault Outcome) :
    Quiet (plan d.access path outcome).run :=
  Quiet.step_bind (readSource_quiet hd _) fun _ =>
    Quiet.step_bind (settingsFor_quiet hd _) fun _ => callStep_quiet (Quiet.pure _)

/-- An outcome is come to only from a file that can be read. -/
theorem read_of_plan (hd : d.WritesWhole) {path : Text} {outcome : Text → Settings → Except ExtractionFault Outcome}
    {s : σ} {o : Outcome} (h : ((plan d.access path outcome).run.run s).1 = .ok o) :
    ∃ t, ((d.access.read (String.ofList path)).run s).1 = .ok t := by
  obtain ⟨t, ht, -⟩ := (readSource_quiet hd _).of_step_bind_ok h
  exact ⟨t, mapError_eq_ok ht⟩

end

end Tool

/-! ## Extractions -/

section

variable {σ ε β : Type} {d : Disk σ}

/-- What both hosts do with an outcome: they write a new text if asked, and give it back otherwise. -/
structure Disk.Finishes (d : Disk σ) (file : Text) (reply : Except ε β → Response)
    (finish : Bool → Outcome → ExceptT ε (StateM σ) β) : Prop where
  failed : ∀ fault, (reply (.error fault)).succeeded = false
  skipped : ∀ apply notice s, ∃ b, (finish apply (.skipped notice)).run.run s = (.ok b, s) ∧
    (reply (.ok b)).succeeded = false
  shown : ∀ e s, ∃ b, (finish false (.extracted e)).run.run s = (.ok b, s) ∧ (reply (.ok b)).succeeded = true ∧
    (reply (.ok b)).shown? = some e.text
  written : ∀ e s after, (d.access.write (String.ofList file) e.text).run s = (.ok (), after) →
    ∃ b, (finish true (.extracted e)).run.run s = (.ok b, after) ∧ (reply (.ok b)).succeeded = true
  refused : ∀ e s fault after, (d.access.write (String.ofList file) e.text).run s = (.error fault, after) →
    ∃ fault, (finish true (.extracted e)).run.run s = (.error fault, after)

theorem Command.run_attempt {ε α : Type} {fault : ε → CommandFault} {action : StateM σ (Except ε α)} {s after : σ}
    {r : Except ε α} (h : action.run s = (r, after)) :
    (attempt fault action).run.run s = (r.mapError fault, after) := by
  change ((action.run s).1.mapError fault, (action.run s).2) = _
  rw [h]

theorem Command.finishes (d : Disk σ) (file : Text) :
    d.Finishes file Response.command (Command.finish d.access file) where
  failed _ := rfl
  skipped _ _ _ := ⟨_, rfl, rfl⟩
  shown _ _ := ⟨_, rfl, rfl, rfl⟩
  written e _ _ h := ⟨⟨.done, extractionReport e file true, []⟩, run_step_bind_ok (run_attempt h) _, rfl⟩
  refused _ _ fault _ h := ⟨.unwritable file fault, run_step_bind_error (run_attempt h) _⟩

theorem Tool.run_callStep {ε α : Type} {fault : ε → CallFault} {action : StateM σ (Except ε α)} {s after : σ}
    {r : Except ε α} (h : action.run s = (r, after)) :
    (callStep fault action).run.run s = (r.mapError fault, after) := by
  change ((action.run s).1.mapError fault, (action.run s).2) = _
  rw [h]

theorem Tool.shown?_answer (e : Extraction) (path : Text) :
    (Response.call (.ok (e.answer path false))).shown? = some e.text := by
  simp [Response.shown?, Extraction.answer, Json.member?, Json.ofMembers, Json.get?, optionalMember, Json.text?]

theorem Tool.finishes (d : Disk σ) (file : Text) : d.Finishes file Response.call (finishCall d.access file) where
  failed _ := rfl
  skipped _ _ _ := ⟨_, rfl, rfl⟩
  shown e _ := ⟨_, rfl, rfl, shown?_answer e file⟩
  written e _ _ h := ⟨e.answer file true, run_step_bind_ok (run_callStep h) _, rfl⟩
  refused _ _ fault _ h := ⟨.unwritable file fault, run_step_bind_error (run_callStep h) _⟩

/-- An extraction either fails and changes nothing, or there is a text that it gives its file or shows. -/
inductive Disk.Comes (d : Disk σ) (request : Request) (s : σ) : Prop
  | failed (response : Response) (hrun : (request.run d.access).run s = (response, s))
      (hresponse : response.succeeded = false)
  | extracted (file old text : Text) (shown : Response) (hfile : request.file? = some file)
      (hread : ((d.access.read (String.ofList file)).run s).1 = .ok old)
      (hdry : (request.dry.run d.access).run s = (shown, s)) (hshown : shown.succeeded = true)
      (htext : shown.shown? = some text)
      (hkeeps : request.applies = false → ((request.run d.access).run s).2 = s)
      (hwritten : request.applies = true → ∀ after, (d.access.write (String.ofList file) text).run s = (.ok (), after) →
        ((request.run d.access).run s).1.succeeded = true ∧ ((request.run d.access).run s).2 = after)
      (hrefused : request.applies = true → ∀ fault after,
        (d.access.write (String.ofList file) text).run s = (.error fault, after) →
          ((request.run d.access).run s).1.succeeded = false ∧ ((request.run d.access).run s).2 = after)

/-- A host that comes to an outcome before it writes makes extractions so. -/
theorem Disk.Finishes.comes {file : Text} {reply : Except ε β → Response}
    {finish : Bool → Outcome → ExceptT ε (StateM σ) β} (h : d.Finishes file reply finish) {request : Request}
    (hfile : request.file? = some file) {plan : ExceptT ε (StateM σ) Outcome} (hplan : Quiet plan.run) {s : σ}
    (hread : ∀ o, (plan.run.run s).1 = .ok o → ∃ old, ((d.access.read (String.ofList file)).run s).1 = .ok old)
    (hrun : request.run d.access = reply <$> (plan >>= finish request.applies).run)
    (hdry : request.dry.run d.access = reply <$> (plan >>= finish false).run) : d.Comes request s := by
  have hrun' : (request.run d.access).run s =
      (reply ((plan >>= finish request.applies).run.run s).1, ((plan >>= finish request.applies).run.run s).2) := by
    rw [hrun]
    rfl
  have hdry' : (request.dry.run d.access).run s =
      (reply ((plan >>= finish false).run.run s).1, ((plan >>= finish false).run.run s).2) := by
    rw [hdry]
    rfl
  cases hcomes : (plan.run.run s).1 with
  | error fault =>
    rw [run_step_bind_error (Prod.ext hcomes (hplan s))] at hrun'
    exact .failed _ hrun' (h.failed fault)
  | ok outcome =>
    rw [run_step_bind_ok (Prod.ext hcomes (hplan s))] at hrun' hdry'
    cases outcome with
    | skipped notice =>
      obtain ⟨b, hb, hskipped⟩ := h.skipped request.applies notice s
      rw [hb] at hrun'
      exact .failed _ hrun' hskipped
    | extracted e =>
      obtain ⟨old, hold⟩ := hread _ hcomes
      obtain ⟨b, hb, hsucceeded, hshown⟩ := h.shown e s
      rw [hb] at hdry'
      refine .extracted file old e.text _ hfile hold hdry' hsucceeded hshown ?_ ?_ ?_
      · intro happlies
        rw [happlies, hb] at hrun'
        rw [hrun']
      · intro happlies after hwrite
        obtain ⟨b, hb, hdone⟩ := h.written e s after hwrite
        rw [happlies, hb] at hrun'
        rw [hrun']
        exact ⟨hdone, rfl⟩
      · intro happlies fault after hwrite
        obtain ⟨fault, hfault⟩ := h.refused e s fault after hwrite
        rw [happlies, hfault] at hrun'
        rw [hrun']
        exact ⟨h.failed fault, rfl⟩

end

section

variable {σ : Type} {d : Disk σ}

theorem Command.extract_comes (hd : d.WritesWhole) (c : ExtractCommand) (s : σ) :
    d.Comes (.command (.extract c)) s := by
  refine (finishes d c.file).comes rfl (plan_quiet hd c.common c.overrides c.file fun t =>
    extractOne t (String.ofList c.file) (c.cursor.offsetIn t) c.name) (fun _ h => read_of_plan hd h) ?_ ?_
  · simp only [Request.run, Command.run, Request.applies, extract_eq, map_eq_pure_bind]
    rfl
  · simp only [Request.run, Command.run, Request.dry, extract_eq, map_eq_pure_bind]
    rfl

theorem Command.extractAll_comes (hd : d.WritesWhole) (c : ExtractAllCommand) (s : σ) :
    d.Comes (.command (.extractAll c)) s := by
  refine (finishes d c.file).comes rfl (plan_quiet hd c.common c.overrides c.file fun t =>
    StyleHoist.extractAll t (String.ofList c.file)) (fun _ h => read_of_plan hd h) ?_ ?_
  · simp only [Request.run, Command.run, Request.applies, extractAll_eq, map_eq_pure_bind]
    rfl
  · simp only [Request.run, Command.run, Request.dry, extractAll_eq, map_eq_pure_bind]
    rfl

theorem Tool.flag_of_optional {ps : List (Text × Json)} {apply : Option Bool}
    (h : optional Json.flag? ps "apply" = .ok apply) :
    ((Json.get? "apply".toList ps).bind Json.flag? == some true) = apply.getD false := by
  unfold optional at h
  split at h
  · rename_i hnone
    obtain rfl := Except.ok.inj h
    rw [hnone]
    rfl
  · rename_i hnull
    obtain rfl := Except.ok.inj h
    rw [hnull]
    rfl
  · rename_i v _ hvalue
    rw [hvalue, Option.bind_some]
    split at h
    · rename_i b hflag
      obtain rfl := Except.ok.inj h
      rw [hflag]
      cases b <;> rfl
    · cases h

section

variable {parameters : Json} {tool : Tool} {ps : List (Text × Json)}

theorem Tool.extraction_of_task {path : Text} {outcome : Text → Settings → Except ExtractionFault Outcome}
    {apply : Option Bool} (hps : parametersOf tool.parameterNames parameters = .ok ps)
    (htask : tool.task ps = .ok (path, outcome)) (happly : optional Json.flag? ps "apply" = .ok apply) :
    tool.extraction d.access parameters =
      plan d.access path outcome >>= finishCall d.access path (apply.getD false) := by
  rw [extraction, hps, liftM_ok, pure_bind, htask, liftM_ok, pure_bind, happly, liftM_ok]
  exact pure_bind apply _

end

/-- A call whose parameters are refused does nothing. -/
theorem Tool.extraction_comes (hd : d.WritesWhole) {tool : Tool} {parameters : Json} {request : Request}
    (hfile : request.file? = (tool.parameter? "filePath" parameters).bind Json.text?)
    (happlies : request.applies = ((tool.parameter? "apply" parameters).bind Json.flag? == some true))
    (hrun : request.run d.access = Response.call <$> (tool.extraction d.access parameters).run)
    (hdry : request.dry.run d.access = Response.call <$> (tool.extraction d.access (tool.unapplied parameters)).run)
    (s : σ) : d.Comes request s := by
  have hrefused : ∀ fault, (tool.extraction d.access parameters).run = pure (.error fault) → d.Comes request s := by
    intro fault h
    refine .failed (.call (.error fault)) ?_ rfl
    rw [hrun, h]
    rfl
  cases hps : parametersOf tool.parameterNames parameters with
  | error fault => exact hrefused fault (by rw [extraction, hps]; rfl)
  | ok ps =>
    obtain ⟨others, hothers, hnone, hsame⟩ := parametersOf_unapplied tool hps
    cases htask : tool.task ps with
    | error fault => exact hrefused fault (by rw [extraction, hps, liftM_ok, pure_bind, htask]; rfl)
    | ok task =>
      obtain ⟨path, outcome⟩ := task
      cases happly : optional Json.flag? ps "apply" with
      | error fault =>
        exact hrefused fault (by rw [extraction, hps, liftM_ok, pure_bind, htask, liftM_ok, pure_bind, happly]; rfl)
      | ok apply =>
        have hpath : request.file? = some path := by
          rw [hfile, parameter?, hps]
          exact text?_of_task htask
        have hwish : request.applies = apply.getD false := by
          rw [happlies, parameter?, hps]
          exact flag_of_optional happly
        have hunapplied : optional Json.flag? others "apply" = .ok none := by rw [optional, hnone]
        refine (finishes d path).comes hpath (plan_quiet hd path outcome) (fun _ h => read_of_plan hd h) ?_ ?_
        · rw [hrun, hwish, extraction_of_task hps htask happly]
        · rw [hdry, extraction_of_task hothers ((tool.task_congr hsame).trans htask) hunapplied]
          rfl

theorem Tool.extractStyle_comes (hd : d.WritesWhole) (parameters : Json) (s : σ) :
    d.Comes (.call .extractStyle parameters) s :=
  extraction_comes hd rfl rfl (congrArg (Response.call <$> ·.run) (callExtractStyle_eq d.access parameters))
    (congrArg (Response.call <$> ·.run) (callExtractStyle_eq d.access _)) s

theorem Tool.extractAllStyles_comes (hd : d.WritesWhole) (parameters : Json) (s : σ) :
    d.Comes (.call .extractAllStyles parameters) s :=
  extraction_comes hd rfl rfl (congrArg (Response.call <$> ·.run) (callExtractAllStyles_eq d.access parameters))
    (congrArg (Response.call <$> ·.run) (callExtractAllStyles_eq d.access _)) s

/-! ## Other requests -/

/-- An inspection leaves everything as it is. -/
theorem Command.run_inspect_keeps (hd : d.WritesWhole) (c : InspectCommand) :
    Quiet ((Request.command (.inspect c)).run d.access) :=
  Quiet.bind (inspect_quiet hd c) fun _ => Quiet.pure _

theorem Tool.run_inspectFile_keeps (hd : d.WritesWhole) (parameters : Json) :
    Quiet ((Request.call .inspectFile parameters).run d.access) := by
  refine Quiet.bind ?_ fun _ => Quiet.pure _
  refine Quiet.step_bind (Quiet.pure _) fun ps => Quiet.step_bind (Quiet.pure _) fun path => ?_
  refine Quiet.step_bind (Quiet.pure _) fun line => Quiet.step_bind (readSource_quiet hd path) fun t => ?_
  exact Quiet.step_bind (settingsFor_quiet hd path) fun _ => Quiet.pure _

theorem Tool.run_getConfig_keeps (hd : d.WritesWhole) (parameters : Json) :
    Quiet ((Request.call .getConfig parameters).run d.access) := by
  refine Quiet.bind ?_ fun _ => Quiet.pure _
  refine Quiet.step_bind (Quiet.pure _) fun ps => Quiet.step_bind (Quiet.pure _) fun path => ?_
  exact Quiet.step_bind (callStep_quiet (loadSettings_quiet hd _)) fun _ => Quiet.pure _

theorem run_lift {ε α : Type} {action : StateM σ α} {s after : σ} {a : α} (h : action.run s = (a, after)) :
    (liftM action : ExceptT ε (StateM σ) α).run.run s = (.ok a, after) := by
  change (Except.ok (action.run s).1, (action.run s).2) = _
  rw [h]

theorem Request.run_command {invocation : Command.Invocation} {s after : σ}
    {r : Except Command.CommandFault Command.RunResult} (h : (Command.run d.access invocation).run s = (r, after)) :
    ((Request.command invocation).run d.access).run s = (.command r, after) := by
  change (Response.command ((Command.run d.access invocation).run s).1, ((Command.run d.access invocation).run s).2) = _
  rw [h]

/-- A settings file that is there is not written again. -/
theorem Command.run_init_there (hd : d.WritesWhole) {s : σ} (h : ((d.access.isThere settingsFileName).run s).1 = true) :
    ∃ result, (Command.run d.access .init).run s = (.ok result, s) ∧ result.status = .refused :=
  ⟨_, run_step_bind_ok (run_lift (Prod.ext h (hd.isThere_keeps _ s))) _, rfl⟩

/-- A settings file that is not there gets the defaults. -/
theorem Command.run_init_created (hd : d.WritesWhole) {s after : σ}
    (h : ((d.access.isThere settingsFileName).run s).1 = false)
    (hwrite : (d.access.write settingsFileName (line defaultSettingsText)).run s = (.ok (), after)) :
    ∃ result, (Command.run d.access .init).run s = (.ok result, after) ∧ result.status = .done := by
  refine ⟨⟨.done, line (successMark ++ " Created ".toList ++ settingsFileName.toList), []⟩, ?_, rfl⟩
  exact (run_step_bind_ok (run_lift (Prod.ext h (hd.isThere_keeps _ s))) _).trans
    (run_step_bind_ok (run_attempt hwrite) _)

theorem Command.run_init_failed (hd : d.WritesWhole) {s after : σ} {fault : FileFault}
    (h : ((d.access.isThere settingsFileName).run s).1 = false)
    (hwrite : (d.access.write settingsFileName (line defaultSettingsText)).run s = (.error fault, after)) :
    ∃ fault, (Command.run d.access .init).run s = (.error fault, after) := by
  refine ⟨.unwritable settingsFileName.toList fault, ?_⟩
  exact (run_step_bind_ok (run_lift (Prod.ext h (hd.isThere_keeps _ s))) _).trans
    (run_step_bind_error (run_attempt hwrite) _)

end

/-! ## Histories -/

/-- A request that has been answered. -/
structure Event (σ : Type) where
  before : σ
  request : Request
  response : Response
  after : σ

section

variable {σ : Type}

/-- Answers a request. -/
def Disk.answer (d : Disk σ) (request : Request) (s : σ) : Event σ :=
  ⟨s, request, ((request.run d.access).run s).1, ((request.run d.access).run s).2⟩

/-- Answers requests one after the other. -/
def Disk.answerAll (d : Disk σ) (requests : List Request) : StateM σ (List Response) :=
  requests.mapM (Request.run d.access)

/-- What happens as requests are answered one after the other. -/
def Disk.history (d : Disk σ) : List Request → σ → List (Event σ)
  | [], _ => []
  | request :: requests, s => d.answer request s :: d.history requests (d.answer request s).after

/-- The path that a request may write to. -/
def Request.target? : Request → Option String
  | .command .init => some settingsFileName
  | request => if request.applies then request.file?.map String.ofList else none

/-- Only success changes a file, and an applied extraction changes it to what is shown without applying it. -/
structure Disk.Faithful (d : Disk σ) (e : Event σ) : Prop where
  /-- A notice or an error changes nothing. -/
  refused : e.response.succeeded = false → e.after = e.before
  /-- What is not applied, and what only inspects, changes nothing. -/
  shown : e.request.applies = false → e.request ≠ .command .init → e.after = e.before
  /-- A settings file that is there is left as it is. -/
  initialized : e.request = .command .init → ((d.access.isThere settingsFileName).run e.before).1 = true →
    e.response.succeeded = false
  /-- A settings file that is not there gets the defaults, and nothing else changes. -/
  initial : e.request = .command .init → e.response.succeeded = true →
    ∃ place, d.place? e.before settingsFileName = some place ∧
      d.Puts e.before e.after place (Command.line defaultSettingsText)
  /-- An applied extraction gives the file that it names the text that it shows if it is not applied. -/
  applied : e.request.applies = true → e.response.succeeded = true →
    ∃ file place old text dry, e.request.file? = some file ∧ d.place? e.before (String.ofList file) = some place ∧
      d.contentAt e.before place = d.encode old ∧
      (e.request.dry.run d.access).run e.before = (dry, e.before) ∧ dry.succeeded = true ∧ dry.shown? = some text ∧
      d.Puts e.before e.after place text

variable {d : Disk σ}

/-- Requests that change nothing. -/
theorem Disk.Faithful.of_keeps {e : Event σ} (happlies : e.request.applies = false)
    (hinit : e.request ≠ .command .init) (h : e.after = e.before) : d.Faithful e where
  refused _ := h
  shown _ _ := h
  initialized hrequest := absurd hrequest hinit
  initial hrequest := absurd hrequest hinit
  applied hrequest := absurd hrequest (by rw [happlies]; decide)

theorem Disk.Faithful.of_comes (hd : d.WritesWhole) {request : Request} {s : σ} (hinit : request ≠ .command .init)
    (h : d.Comes request s) : d.Faithful (d.answer request s) := by
  cases h with
  | failed response hrun hresponse =>
    have hsucceeded : (d.answer request s).response.succeeded = false := by rw [answer, hrun, hresponse]
    have hkeeps : (d.answer request s).after = s := by rw [answer, hrun]
    exact {
      refused := fun _ => hkeeps
      shown := fun _ _ => hkeeps
      initialized := fun hrequest => absurd hrequest hinit
      initial := fun hrequest => absurd hrequest hinit
      applied := fun _ hdone => absurd hdone (by rw [hsucceeded]; decide) }
  | extracted file old text shown hfile hread hdry hshown htext hkeeps hwritten hrefused =>
    cases happlies : request.applies with
    | false => exact .of_keeps happlies hinit (hkeeps happlies)
    | true =>
      rcases hwrite : (d.access.write (String.ofList file) text).run s with ⟨_ | _, after⟩
      · rename_i fault
        have hstate : after = s := by
          have := hd.write_refused (String.ofList file) text s fault (by rw [hwrite])
          rwa [hwrite] at this
        obtain ⟨hsucceeded, hafter⟩ := hrefused happlies fault after hwrite
        exact {
          refused := fun _ => hafter.trans hstate
          shown := fun _ _ => hafter.trans hstate
          initialized := fun hrequest => absurd hrequest hinit
          initial := fun hrequest => absurd hrequest hinit
          applied := fun _ hdone => absurd (hsucceeded.symm.trans hdone) (by decide) }
      · obtain ⟨place, hplace, hputs⟩ := hd.write_done (String.ofList file) text s (by rw [hwrite])
        rw [hwrite] at hputs
        obtain ⟨there, hthere, hold⟩ := hd.read_eq _ _ _ hread
        obtain rfl : place = there := Option.some.inj (hplace.symm.trans hthere)
        obtain ⟨hsucceeded, hafter⟩ := hwritten happlies after hwrite
        exact {
          refused := fun hfailed => absurd (hsucceeded.symm.trans hfailed) (by decide)
          shown := fun hnot => absurd (happlies.symm.trans hnot) (by decide)
          initialized := fun hrequest => absurd hrequest hinit
          initial := fun hrequest => absurd hrequest hinit
          applied := fun _ _ =>
            ⟨file, place, old, text, shown, hfile, hplace, hold, hdry, hshown, htext,
              by rw [answer, hafter]; exact hputs⟩ }

theorem Command.init_faithful (hd : d.WritesWhole) (s : σ) : d.Faithful (d.answer (.command .init) s) := by
  have hnot : ∀ P : Prop, (Request.command .init).applies = true → P := fun _ h => absurd h (by decide)
  cases hthere : ((d.access.isThere settingsFileName).run s).1 with
  | true =>
    obtain ⟨result, hrun, hstatus⟩ := run_init_there hd hthere
    have hanswer := Request.run_command hrun
    have hsucceeded : (d.answer (.command .init) s).response.succeeded = false := by
      rw [Disk.answer, hanswer, Response.succeeded, hstatus]
      rfl
    have hkeeps : (d.answer (.command .init) s).after = s := by rw [Disk.answer, hanswer]
    exact {
      refused := fun _ => hkeeps
      shown := fun _ hinit => absurd rfl hinit
      initialized := fun _ _ => hsucceeded
      initial := fun _ hdone => absurd (hsucceeded.symm.trans hdone) (by decide)
      applied := hnot _ }
  | false =>
    have hnew : ((d.access.isThere settingsFileName).run s).1 = true → False := by rw [hthere]; decide
    rcases hwrite : (d.access.write settingsFileName (line defaultSettingsText)).run s with ⟨fault | _, after⟩
    · have hstate : after = s := by
        have := hd.write_refused settingsFileName (line defaultSettingsText) s fault (by rw [hwrite])
        rwa [hwrite] at this
      obtain ⟨fault, hrun⟩ := run_init_failed hd hthere hwrite
      have hanswer := Request.run_command hrun
      have hsucceeded : (d.answer (.command .init) s).response.succeeded = false := by
        rw [Disk.answer, hanswer]
        rfl
      exact {
        refused := fun _ => by rw [Disk.answer, hanswer, hstate]
        shown := fun _ hinit => absurd rfl hinit
        initialized := fun _ h => (hnew h).elim
        initial := fun _ hdone => absurd (hsucceeded.symm.trans hdone) (by decide)
        applied := hnot _ }
    · obtain ⟨place, hplace, hputs⟩ := hd.write_done settingsFileName (line defaultSettingsText) s (by rw [hwrite])
      rw [hwrite] at hputs
      obtain ⟨result, hrun, hstatus⟩ := run_init_created hd hthere hwrite
      have hanswer := Request.run_command hrun
      have hsucceeded : (d.answer (.command .init) s).response.succeeded = true := by
        rw [Disk.answer, hanswer, Response.succeeded, hstatus]
        rfl
      exact {
        refused := fun hfailed => absurd (hsucceeded.symm.trans hfailed) (by decide)
        shown := fun _ hinit => absurd rfl hinit
        initialized := fun _ h => (hnew h).elim
        initial := fun _ _ => ⟨place, hplace, by rw [Disk.answer, hanswer]; exact hputs⟩
        applied := hnot _ }

/-- Every request is answered so. -/
theorem Disk.answer_faithful (hd : d.WritesWhole) (request : Request) (s : σ) : d.Faithful (d.answer request s) := by
  cases request with
  | command invocation =>
    cases invocation with
    | extract c => exact .of_comes hd (by simp) (Command.extract_comes hd c s)
    | extractAll c => exact .of_comes hd (by simp) (Command.extractAll_comes hd c s)
    | inspect c => exact .of_keeps rfl (by simp [answer]) (Command.run_inspect_keeps hd c s)
    | init => exact Command.init_faithful hd s
    | serve => exact .of_keeps rfl (by simp [answer]) rfl
  | call tool parameters =>
    cases tool with
    | extractStyle => exact .of_comes hd (by simp) (Tool.extractStyle_comes hd parameters s)
    | extractAllStyles => exact .of_comes hd (by simp) (Tool.extractAllStyles_comes hd parameters s)
    | inspectFile => exact .of_keeps rfl (by simp [answer]) (Tool.run_inspectFile_keeps hd parameters s)
    | getConfig => exact .of_keeps rfl (by simp [answer]) (Tool.run_getConfig_keeps hd parameters s)

/-- Only a request that is done changes anything, and it changes what lies at the path that it may write to. -/
theorem Disk.Faithful.target_of_changed {e : Event σ} (h : d.Faithful e) {place : d.Place}
    (hchanged : d.contentAt e.after place ≠ d.contentAt e.before place) :
    e.response.succeeded = true ∧ ∃ path, e.request.target? = some path ∧ d.place? e.before path = some place := by
  have hdone : e.response.succeeded = true := by
    cases hsucceeded : e.response.succeeded with
    | true => rfl
    | false => exact absurd (by rw [h.refused hsucceeded]) hchanged
  refine ⟨hdone, ?_⟩
  by_cases hinit : e.request = .command .init
  · obtain ⟨there, hplace, hputs⟩ := h.initial hinit hdone
    refine ⟨settingsFileName, by rw [hinit]; rfl, ?_⟩
    by_contra hne
    exact hchanged (hputs.2 place fun heq => hne (heq ▸ hplace))
  · cases happlies : e.request.applies with
    | false => exact absurd (by rw [h.shown happlies hinit]) hchanged
    | true =>
      obtain ⟨file, there, old, text, dry, hfile, hplace, -, -, -, -, hputs⟩ := h.applied happlies hdone
      refine ⟨String.ofList file, by simp [Request.target?, happlies, hfile], ?_⟩
      by_contra hne
      exact hchanged (hputs.2 place fun heq => hne (heq ▸ hplace))

theorem Disk.run_answerAll_cons (d : Disk σ) (request : Request) (requests : List Request) (s : σ) :
    (d.answerAll (request :: requests)).run s =
      ((d.answer request s).response :: ((d.answerAll requests).run (d.answer request s).after).1,
        ((d.answerAll requests).run (d.answer request s).after).2) := by
  rw [answerAll, List.mapM_cons]
  rfl

/-- **Only an applied success changes a file, and it changes it to what is shown without applying it.** On a disk that
writes whole, whatever is asked of commands and tools in whatever order, each request is answered so, and a place has
another content in the end only if a request that was done gave it one. -/
theorem history_faithful (hd : d.WritesWhole) (requests : List Request) (s : σ) :
    ((d.answerAll requests).run s).1 = (d.history requests s).map Event.response ∧
    (∀ e ∈ d.history requests s, d.Faithful e) ∧
    ∀ place, d.contentAt ((d.answerAll requests).run s).2 place ≠ d.contentAt s place →
      ∃ e ∈ d.history requests s, e.response.succeeded = true ∧
        ∃ path, e.request.target? = some path ∧ d.place? e.before path = some place := by
  induction requests generalizing s with
  | nil => exact ⟨rfl, by simp [Disk.history], fun _ h => absurd rfl h⟩
  | cons request requests ih =>
    obtain ⟨hresponses, hfaithful, hchanged⟩ := ih (d.answer request s).after
    rw [Disk.run_answerAll_cons]
    refine ⟨congrArg _ hresponses, List.forall_mem_cons.2 ⟨Disk.answer_faithful hd request s, hfaithful⟩, ?_⟩
    intro place hplace
    by_cases hkept : d.contentAt (d.answer request s).after place = d.contentAt s place
    · obtain ⟨e, he, htarget⟩ := hchanged place (by rwa [hkept])
      exact ⟨e, List.mem_cons_of_mem _ he, htarget⟩
    · exact ⟨_, List.mem_cons_self, (Disk.answer_faithful hd request s).target_of_changed hkept⟩

/-- A file with an inline style. -/
def screenProject : Project :=
  .ofFiles "/p" [("App.tsx",
    ("import \x7b View \x7d from 'react-native';\n" ++
      "export const A = () => <View style=\x7b\x7b flex: 1 \x7d\x7d />;\n").toList)]

/-- The settings file is asked for twice, the style is shown and then extracted twice, and the file is inspected. -/
def screenRequests : List Request :=
  [.command .init, .command .init, .command (.extractAll ⟨"App.tsx".toList, false, {}, {}⟩),
    .call .extractAllStyles (.ofMembers [("filePath", .ofString "App.tsx"), ("apply", .bool true)]),
    .call .extractAllStyles (.array [.ofString "App.tsx", .bool true]),
    .call .inspectFile (.ofMembers [("filePath", .ofString "App.tsx")])]

/-- The second request for a settings file and the second extraction are refused, the others are done. -/
theorem history_faithful_screenRequests : (Project.disk "/p").WritesWhole ∧
    ((Project.disk "/p").history screenRequests screenProject).map (fun e => e.response.succeeded) =
      [true, false, true, true, false, true] ∧
    ∀ e ∈ (Project.disk "/p").history screenRequests screenProject, (Project.disk "/p").Faithful e :=
  ⟨Project.writesWhole "/p", by decide +kernel,
    (history_faithful (Project.writesWhole "/p") screenRequests screenProject).2.1⟩

end

end StyleHoist
