import FencedPool.Command
import FencedPool.Proofs.Duration.ReadBack
import FencedPool.Proofs.Text.Utf8
import FencedPool.Proofs.Toml.Lines

/-!
# RoundTrip — printed settings load back

The settings in force are printed as a document with a line for each of them, and only absent
credentials have none.  The keys are different and need no quotes, so the document is read line by
line.  A text is read back in whatever form it was written, a priority is its digits, and a session
timeout is the sum of its parts.  So every setting takes the value it had, and the settings that
come out are refused only if those that were printed are.

This file defines `Config.settings`, the lines of a printed document.

The main statement is `printed_loads_back`.
-/

namespace FencedPool

open Toml

namespace Config

/-! ## The printed document -/

theorem isBare_of_mem_names {key : String} (h : key ∈ names) : IsBare key := by
  have hall : ∀ key ∈ names, key.toList ≠ [] ∧ key.toList.all isKeyChar = true := by decide
  exact ⟨(hall key h).1, List.all_eq_true.1 (hall key h).2⟩

theorem toNat_priority_lt (priority : UInt32) : priority.toNat < Power.two 63 :=
  Nat.lt_trans priority.toNat_lt (by decide)

variable (c : Config)

/-- The settings with their texts, in the order in which they are printed. -/
def settings : List Setting :=
  let text := fun (key : String) (h : key ∈ names) => Setting.ofText key (isBare_of_mem_names h)
  [text "connection" (by decide) c.connection, text "namespace" (by decide) c.basePath,
      text "request_root" (by decide) c.requestRoot,
      text "request_lock_root" (by decide) c.requestLockRoot,
      text "node_root" (by decide) c.nodeRoot,
      .ofNumber "priority" (isBare_of_mem_names (by decide)) c.priority.toNat
        (toNat_priority_lt c.priority)]
    ++ c.credentialsId.toList.map (text "credentials_id" (by decide))
    ++ [text "session_timeout" (by decide) c.sessionTimeout.text]

theorem encode_eq : c.encode = String.ofList (c.settings.flatMap Setting.line) := by
  unfold encode settings
  cases c.credentialsId with
  | none => simp [textLine, line, Setting.line, Setting.ofText, Setting.ofNumber]
  | some id => simp [textLine, line, Setting.line, Setting.ofText, Setting.ofNumber]

theorem keys_settings : (c.settings.map Setting.key).Sublist names := by
  unfold settings
  cases c.credentialsId with
  | none =>
      -- only the name of the credentials is missing
      have herased : (names.erase "credentials_id").Sublist names := List.erase_sublist
      exact herased
  | some id => exact List.Sublist.refl _

theorem parse_encode : parse c.encode = some (c.settings.map Setting.entry) := by
  have hnames : names.Nodup := by decide
  rw [encode_eq]
  exact parse_settings (c.keys_settings.nodup hnames)

/-! ## Taking the settings -/

theorem asPriority_toNat (priority : UInt32) :
    asPriority (.integer priority.toNat) = .ok priority := by
  have hrange : 0 ≤ (priority.toNat : Int) ∧ (priority.toNat : Int) < Power.two 32 :=
    ⟨Int.natCast_nonneg _, Int.ofNat_lt.2 priority.toNat_lt⟩
  rw [asPriority, if_pos hrange, Int.toNat_natCast]
  exact congrArg Except.ok priority.ofNat_toNat

theorem asDuration_text (d : Duration) : asDuration (.text d.text) = .ok d := by
  rw [asDuration, Duration.read?_text]

theorem takeAll_cons {c c' : Config} {entry : String × Value} (h : c.take entry = .ok c')
    (rest : Body) : takeAll c (entry :: rest) = takeAll c' rest := by
  rw [takeAll, h]

theorem takeAll_priority (priority : UInt32) (rest : Body) :
    takeAll c (("priority", .integer priority.toNat) :: rest) =
      takeAll (c.withPriority priority) rest := by
  have htake : ∀ v, c.take ("priority", v) = (asPriority v).map c.withPriority := fun _ => rfl
  refine takeAll_cons ?_ rest
  rw [htake, asPriority_toNat]
  rfl

theorem takeAll_timeout (timeout : Duration) (rest : Body) :
    takeAll c (("session_timeout", .text timeout.text) :: rest) =
      takeAll (c.withSessionTimeout timeout) rest := by
  have htake : ∀ v, c.take ("session_timeout", v) = (asDuration v).map c.withSessionTimeout :=
    fun _ => rfl
  refine takeAll_cons ?_ rest
  rw [htake, asDuration_text]
  rfl

theorem takeAll_settings : takeAll {} (c.settings.map Setting.entry) = .ok c := by
  rcases c with
    ⟨connection, basePath, requestRoot, requestLockRoot, nodeRoot, priority, credentialsId, timeout⟩
  -- the five texts in front replace defaults, whatever follows them
  let texts : Config := { connection, basePath, requestRoot, requestLockRoot, nodeRoot }
  have htexts : ∀ rest, takeAll {} (("connection", .text connection) ::
      ("namespace", .text basePath) :: ("request_root", .text requestRoot) ::
      ("request_lock_root", .text requestLockRoot) :: ("node_root", .text nodeRoot) :: rest) =
        takeAll texts rest := fun _ => rfl
  let numbered := texts.withPriority priority
  let last : Body := [("session_timeout", .text timeout.text)]
  cases credentialsId with
  | none =>
      calc takeAll {} _ = takeAll texts (("priority", .integer priority.toNat) :: last) := htexts _
        _ = takeAll numbered last := texts.takeAll_priority priority last
        _ = takeAll (numbered.withSessionTimeout timeout) [] := numbered.takeAll_timeout timeout []
        _ = .ok _ := rfl
  | some id =>
      let credited := numbered.withCredentialsId id
      let more : Body := ("credentials_id", .text id) :: last
      calc takeAll {} _ = takeAll texts (("priority", .integer priority.toNat) :: more) := htexts _
        _ = takeAll numbered more := texts.takeAll_priority priority more
        _ = takeAll credited last := takeAll_cons rfl last
        _ = takeAll (credited.withSessionTimeout timeout) [] := credited.takeAll_timeout timeout []
        _ = .ok _ := rfl

/-! ## Loading -/

/-- Once the entries are known, only the check of the settings is left. -/
theorem decode_of_entries {c : Config} {text : String} {entries : Body}
    (hparse : parse text = some entries) (htake : takeAll {} entries = .ok c) :
    decode text = .ok c ↔ c.fault? = none := by
  unfold decode
  rw [hparse]
  dsimp only
  rw [htake]
  dsimp only
  cases c.fault? with
  | none => exact ⟨fun _ => rfl, fun _ => rfl⟩
  | some fault => exact ⟨nofun, nofun⟩

/-- What is read from a printed document is refused only if its settings cannot be used. -/
theorem decode_encode_iff : decode c.encode = .ok c ↔ c.fault? = none :=
  decode_of_entries c.parse_encode c.takeAll_settings

variable {c}

theorem fault?_of_decode {text : String} (h : decode text = .ok c) : c.fault? = none := by
  unfold decode at h
  split at h
  · cases h
  · split at h
    · cases h
    · split at h
      · cases h
      · next hfault =>
          cases h
          exact hfault

/-- Settings that were loaded from a file can be used. -/
theorem fault?_of_load {file : String} {content : Except String Bytes}
    (h : load file content = .ok c) : c.fault? = none := by
  unfold load at h
  split at h
  · cases h
  · split at h
    · cases h
    · exact fault?_of_decode h

theorem load_bytes (file text : String) :
    load file (.ok (Utf8.bytes text)) = decode text := by
  unfold load
  dsimp only
  rw [Utf8.decode?_bytes]

end Config

theorem Command.run_of_load {args : List String} {file : String} {action : Action}
    {read : String → Except String Bytes} {c : Config}
    (hargs : Invocation.parse args = .perform (some file) action)
    (hload : Config.load file (read file) = .ok c) : run read args = perform c action := by
  unfold run
  rw [hargs]
  dsimp only
  rw [hload]

/-- The settings in force are printed as a text that is accepted exactly when they can be used, and
that gives the same settings.  So a copy of what was printed for a file loads and prints as the file
does, wherever either of them stands. -/
theorem printed_loads_back :
    (∀ c : Config,
      Config.decode (Command.perform c .showConfig).stdout = .ok c ↔ c.fault? = none) ∧
    ∀ {args args' : List String} {file copy : String} {read reread : String → Except String Bytes}
      {c : Config},
      Invocation.parse args = .perform (some file) .showConfig →
      Invocation.parse args' = .perform (some copy) .showConfig →
      Config.load file (read file) = .ok c →
      reread copy = .ok (Utf8.bytes (Command.run read args).stdout) →
        Config.load copy (reread copy) = .ok c ∧
          Command.run reread args' = Command.run read args := by
  refine ⟨fun c => c.decode_encode_iff, ?_⟩
  intro args args' file copy read reread c hargs hargs' hload hcopy
  have hrun := Command.run_of_load hargs hload
  -- what was loaded can be used, so the copy is accepted as well
  have hreload : Config.load copy (reread copy) = .ok c := by
    rw [hcopy, hrun, Config.load_bytes]
    exact c.decode_encode_iff.2 (Config.fault?_of_load hload)
  have hrerun := Command.run_of_load hargs' hreload
  exact ⟨hreload, hrerun.trans hrun.symm⟩

/-- Here a text has quotes of both kinds, a timeout has all parts down to the nanosecond, and a file
is not laid out as it would be printed. -/
theorem printed_quotes_load_back :
    let c : Config :=
      { connection := "zk\"\"\"'''\n\x00\\:2181", requestRoot := "\x7f\t'\r\n",
        priority := 4294967295, credentialsId := some "",
        sessionTimeout := ⟨34279276, 5006007, by decide, by decide⟩ }
    let read : String → Except String Bytes := fun _ => .ok <| Utf8.bytes
      "priority = 0x0a # ten\n'namespace' = '''/pool'''\nsession_timeout = \"90s\"\n"
    let printed := Command.run read ["--config", "pool.toml", "config"]
    let reread : String → Except String Bytes := fun _ => .ok (Utf8.bytes printed.stdout)
    c.fault? = none ∧ Config.decode (Command.perform c .showConfig).stdout = .ok c ∧
      Command.run reread ["config", "--config", "copy.toml"] = printed := by
  intro c read printed reread
  have husable : c.fault? = none := by decide
  have hargs : Invocation.parse ["--config", "pool.toml", "config"] =
      .perform (some "pool.toml") .showConfig := rfl
  have hcopyArgs : Invocation.parse ["config", "--config", "copy.toml"] =
      .perform (some "copy.toml") .showConfig := rfl
  have hload : Config.load "pool.toml" (read "pool.toml") = .ok
      { basePath := "/pool", priority := 10,
        sessionTimeout := ⟨90, 0, by decide, by decide⟩ } := by
    rw [Config.load_bytes]
    rfl
  have hcopy : reread "copy.toml" = .ok (Utf8.bytes printed.stdout) := rfl
  refine ⟨husable, (printed_loads_back.1 c).2 husable, ?_⟩
  exact (printed_loads_back.2 hargs hcopyArgs hload hcopy).2

end FencedPool
