import ExperimentSuite.Proofs.Experiment.Command
import ExperimentSuite.Proofs.Experiment.Reading

/-!
# Normalising the commands of an experiment

What the rules of the shape admit as a command is what normalising accepts, so
that for an experiment that has been parsed only the length of a list can be
wrong. The result has one mapping for each instance: the entry that is written
for it, a text being taken for the main command.
-/

namespace ExperimentSuite

namespace Command

variable {place hostType : String} {index n : Nat} {d commands : Document}
  {items normals : List Document} {failure : Failure}

/-- A command as a mapping: a text is its main command. -/
def canonical : Document → Document
  | .str main => .map [(Vocabulary.mainCommand, .str main)]
  | d => d

/-- What is written for each of `n` instances: the entries of a list, or one command for all. -/
def writtenFor (n : Nat) : Document → List Document
  | .list entries => entries
  | single => List.replicate n single

theorem isNormal_canonical (h : Shape.isCommand d = true) : IsNormal (canonical d) := by
  cases d with
  | str main => exact ⟨rfl, rfl⟩
  | map fields => exact ⟨rfl, h⟩
  | _ => cases h

theorem normalizeEntry_eq_canonical (h : Shape.isCommand d = true) :
    normalizeEntry place d = .ok (canonical d) := by
  cases d with
  | str main => rfl
  | map fields => exact normalizeEntry_map.mpr ⟨h, rfl⟩
  | _ => cases h

theorem normalizeFrom_eq_map (h : ∀ d ∈ items, Shape.isCommand d = true) :
    normalizeFrom place index items = .ok (items.map canonical) := by
  induction items generalizing index with
  | nil => rfl
  | cons d rest ih =>
      obtain ⟨hd, hrest⟩ := List.forall_mem_cons.mp h
      rw [normalizeFrom, normalizeEntry_eq_canonical hd, ih hrest]
      rfl

/-- Each instance of a host type with the right shape has a command. -/
theorem isCommand_of_mem_writtenFor (h : Shape.isCommands commands = true)
    (hd : d ∈ writtenFor n commands) : Shape.isCommand d = true := by
  cases commands with
  | list entries =>
      rw [Shape.isCommands, Bool.and_eq_true, List.all_eq_true] at h
      exact h.2 d hd
  | _ =>
      rw [List.eq_of_mem_replicate hd]
      exact h

/-- Commands with the right shape are normalised entry by entry, if there are as many of them as
instances. -/
theorem normalize_of_isCommands (hlimit : n ≤ Vocabulary.maxHostInstances)
    (h : Shape.isCommands commands = true) :
    normalize hostType n commands =
      if (writtenFor n commands).length = n then .ok ((writtenFor n commands).map canonical)
      else .error (.schema (hostType ++ "." ++ Vocabulary.command)
        (.commandCount (writtenFor n commands).length n)) := by
  have hentries : ∀ place, normalizeFrom place 0 (writtenFor n commands) =
      .ok ((writtenFor n commands).map canonical) := fun place =>
    normalizeFrom_eq_map fun d hd => isCommand_of_mem_writtenFor h hd
  rw [normalize.eq_def, if_neg (by omega)]
  split
  · next entries =>
      by_cases hcount : entries.length = n
      · simpa [hcount, writtenFor] using hentries _
      · simp [hcount, writtenFor]
  · next hsingle =>
      have hwritten : writtenFor n commands = List.replicate n commands := by
        cases commands with
        | list entries => exact (hsingle entries rfl).elim
        | _ => rfl
      rw [hwritten] at hentries ⊢
      rw [hentries, if_pos List.length_replicate]

/-- Only a list has another length than there are instances. -/
theorem length_writtenFor_ne_iff :
    (writtenFor n commands).length ≠ n ↔
      ∃ entries, commands = .list entries ∧ entries.length ≠ n := by
  cases commands <;> simp [writtenFor]

/-- Normalising refuses a list of the wrong length and nothing else, and otherwise yields one
command in normal form for each instance, in order. -/
structure Normalizes (hostType : String) (n : Nat) (commands : Document) : Prop where
  fails_iff : (∃ failure, normalize hostType n commands = .error failure) ↔
    ∃ entries, commands = .list entries ∧ entries.length ≠ n
  failure : ∀ failure, normalize hostType n commands = .error failure →
    failure = .schema (hostType ++ "." ++ Vocabulary.command)
      (.commandCount (writtenFor n commands).length n)
  succeeds : (¬ ∃ entries, commands = .list entries ∧ entries.length ≠ n) →
    ∃ normals, normalize hostType n commands = .ok normals ∧
      normals = (writtenFor n commands).map canonical ∧ normals.length = n ∧
      ∀ d ∈ normals, IsNormal d

theorem normalizes_of_isCommands (hlimit : n ≤ Vocabulary.maxHostInstances)
    (h : Shape.isCommands commands = true) : Normalizes hostType n commands := by
  have heq : normalize hostType n commands = _ := normalize_of_isCommands hlimit h
  by_cases hcount : (writtenFor n commands).length = n
  · rw [if_pos hcount] at heq
    refine ⟨?fails_iff, fun failure hfailure => ?failure, fun _ => ⟨_, heq, rfl, ?length, ?normal⟩⟩
    case fails_iff => simp [← length_writtenFor_ne_iff, heq, hcount]
    case failure => cases heq.symm.trans hfailure
    case length => simpa using hcount
    case normal =>
      exact List.forall_mem_map.mpr fun d hd =>
        isNormal_canonical (isCommand_of_mem_writtenFor h hd)
  · rw [if_neg hcount] at heq
    refine ⟨?fails_iff, fun failure hfailure => ?failure, fun hlength => ?succeeds⟩
    case fails_iff => simp [← length_writtenFor_ne_iff, heq, hcount]
    case failure =>
      cases heq.symm.trans hfailure
      rfl
    case succeeds => exact (hlength (length_writtenFor_ne_iff.mp hcount)).elim

/-- For every host type of a parsed experiment only the length of a list of commands can be
wrong, and otherwise every instance is given its command in normal form. What has been
normalised stays as it is when it is normalised again. -/
theorem normalizes_of_parse_and_idempotent :
    (∀ name raw e, Experiment.parse name raw = .ok e →
      ∀ host ∈ e.hostTypes, Normalizes host.1 host.2.instances host.2.commands) ∧
    ∀ hostType n commands normals, normalize hostType n commands = .ok normals →
      normalize hostType n (.list normals) = .ok normals := by
  constructor
  · intro name raw e hparse host hhost
    have hvalid := (Experiment.valid_of_parse hparse).host host hhost
    exact normalizes_of_isCommands hvalid.bounded hvalid.commands
  · intro hostType n commands normals hnormals
    obtain ⟨hlimit, rfl, hnormal⟩ := isNormal_of_normalize hnormals
    exact normalize_eq_self hlimit hnormal

/-- An experiment with one command for three instances, with a list of two commands for two
instances and with the same list for three. -/
def commandsDocument : Document :=
  .map
    [("base_experiment", .empty),
      ("host_types", .map
        [("client", .map [("$CMD$", .str "run.sh"), ("n", .int 3)]),
          ("server", .map [("$CMD$", serverCommands), ("n", .int 2)]),
          ("standby", .map [("$CMD$", serverCommands), ("n", .int 3)])])]
where
  serverCommands := .list [.str "a.sh", .map [("log", .str "top"), ("main", .str "b.sh")]]

/-- The two commands of the list in normal form. -/
def serverNormals : List Document :=
  [.map [("main", .str "a.sh")], .map [("log", .str "top"), ("main", .str "b.sh")]]

theorem normalizes_commandsDocument :
    ∃ e, Experiment.parse "exp" commandsDocument = .ok e ∧
      Keyed.keys e.hostTypes = ["client", "server", "standby"] ∧
      (∀ host ∈ e.hostTypes, Normalizes host.1 host.2.instances host.2.commands) ∧
      normalize "server" 2 commandsDocument.serverCommands = .ok serverNormals ∧
      normalize "server" 2 (.list serverNormals) = .ok serverNormals := by
  obtain ⟨e, hparse, hkeys⟩ : ∃ e, Experiment.parse "exp" commandsDocument = .ok e ∧
      Keyed.keys e.hostTypes = ["client", "server", "standby"] := ⟨_, rfl, rfl⟩
  have hnormals : normalize "server" 2 commandsDocument.serverCommands = .ok serverNormals := rfl
  exact ⟨e, hparse, hkeys, normalizes_of_parse_and_idempotent.1 "exp" _ e hparse, hnormals,
    normalizes_of_parse_and_idempotent.2 _ _ _ _ hnormals⟩

end Command

end ExperimentSuite
