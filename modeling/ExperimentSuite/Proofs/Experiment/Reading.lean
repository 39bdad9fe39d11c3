import ExperimentSuite.Experiment.Spec
import ExperimentSuite.Proofs.Document.Path
import ExperimentSuite.Proofs.Experiment.Record

/-!
# Reading experiments and writing them back

What reading guarantees: counts within their bounds, at least one host type and
one entry of the factor levels, commands of the right shape. An experiment with
these guarantees is written as a document that passes the check of its shape
and reads back as the same experiment.
-/

namespace ExperimentSuite

open Document

namespace HostType

variable {d : Document} {h : HostType} {place : List String} {n : Nat}
  {fields : List (String × Document)}

/-- What reading guarantees of a host type. -/
structure Valid (h : HostType) : Prop where
  positive : 1 ≤ h.instances
  bounded : h.instances ≤ Vocabulary.maxHostInstances
  commands : Shape.isCommands h.commands = true

/-- Field by field what reading does. -/
structure Reads (fields : List (String × Document)) (h : HostType) : Prop where
  names : Record.checkNames fieldNames fields = .ok ()
  commands : Record.required Vocabulary.command .ok fields = .ok h.commands
  checkStatus : Record.optional "check_status" Record.flag true fields = .ok h.checkStatus
  initRoles : Record.optional "init_roles" Record.roles [] fields = .ok h.initRoles
  instances : Record.optional "n" Record.count 1 fields = .ok h.instances

theorem read_map_eq_ok : read (.map fields) = .ok h ↔ Reads fields h := by
  simp only [read, Outcome.bind_eq_ok]
  constructor
  · rintro ⟨⟨⟩, hnames, commands, hcommands, status, hstatus, roles, hroles, n, hn, heq⟩
    cases heq
    exact ⟨hnames, hcommands, hstatus, hroles, hn⟩
  · rintro ⟨hnames, hcommands, hstatus, hroles, hn⟩
    exact ⟨(), hnames, _, hcommands, _, hstatus, _, hroles, _, hn, rfl⟩

theorem valid_of_read (hshape : Shape.hostType place d = []) (hread : read d = .ok h) :
    h.Valid := by
  obtain ⟨fields, rfl, -⟩ := Shape.record_eq_nil_iff.mp hshape
  have hreads := read_map_eq_ok.mp hread
  obtain ⟨hpositive, -, hbounded⟩ := Record.bounds_of_count hreads.instances
    fun value hvalue => Shape.check_of_field? hshape rfl hvalue
  obtain ⟨commands, hcommands, heq⟩ := Record.required_eq_ok.mp hreads.commands
  cases heq
  have hpasses : Shape.oneOf Shape.isCommands (place ++ [Vocabulary.command]) h.commands = [] :=
    Shape.check_of_field? hshape rfl hcommands
  exact ⟨hpositive, hbounded _ rfl (by decide), Shape.oneOf_eq_nil_iff.mp hpasses⟩

theorem isRoles_map (roles : List String) : Shape.isRoles (.list (roles.map .str)) = true := by
  simp [Shape.isRoles, Shape.isText, Document.str?]

theorem count_nat {place : List String} {most : Option Nat} (hleast : 1 ≤ n)
    (hmost : ∀ bound ∈ most, n ≤ bound) : Shape.count most place (.nat n) = [] := by
  refine Shape.count_int_eq_nil_iff.mpr ⟨by omega, fun bound hbound => ?_⟩
  have := hmost bound hbound
  omega

/-- A host type reads back from the document that it is written as. -/
theorem read_document (hh : h.Valid) : read h.document = .ok h := by
  have hlimit : (Vocabulary.maxHostInstances : Int) ≤ Record.maxCount := by decide
  have hn : (h.instances : Int) ≤ Record.maxCount := by
    have := hh.bounded
    omega
  have hfind : ∀ key, h.document.field? key = Keyed.find? key _ :=
    field?_ofFields (by simp [Keyed.keys, Vocabulary.command])
  refine read_map_eq_ok.mpr ?_
  constructor
  case names => exact Record.checkNames_ofList (by simp [Keyed.keys, fieldNames])
  case commands => exact Record.required_eq_ok.mpr ⟨_, hfind _, rfl⟩
  case checkStatus => exact Record.optional_eq_ok.mpr (.inl ⟨_, hfind _, rfl⟩)
  case initRoles =>
    exact Record.optional_eq_ok.mpr (.inl ⟨_, hfind _, Record.roles_eq_ok.mpr (.inr rfl)⟩)
  case instances =>
    exact Record.optional_eq_ok.mpr (.inl ⟨_, hfind _, Record.count_eq_ok.mpr ⟨rfl, hn⟩⟩)

/-- The document that a host type is written as has the right shape. -/
theorem hostType_document (hh : h.Valid) : Shape.hostType place h.document = [] := by
  refine Shape.record_ofFields ?_ (by simp [Keyed.keys, Vocabulary.command]) (by simp [Keyed.keys])
  simp only [List.forall_mem_cons]
  refine ⟨⟨_, rfl, ?_⟩, ⟨_, rfl, ?_⟩, ⟨_, rfl, ?_⟩, ⟨_, rfl, ?_⟩, by simp⟩
  · exact count_nat hh.positive (by simpa using hh.bounded)
  · exact Shape.boolean_eq_nil_iff.mpr ⟨_, rfl⟩
  · exact Shape.oneOf_eq_nil_iff.mpr (isRoles_map _)
  · exact Shape.oneOf_eq_nil_iff.mpr hh.commands

end HostType

namespace Experiment

open HostType (isRoles_map count_nat)

variable {name : String} {raw d : Document} {e : Experiment} {place : List String}
  {fields : List (String × Document)}

/-- What parsing guarantees of an experiment. -/
structure Valid (e : Experiment) : Prop where
  positive : 1 ≤ e.repetitions
  bounded : (e.repetitions : Int) ≤ Record.maxCount
  hosts : e.hostTypes ≠ []
  host : ∀ host ∈ e.hostTypes, host.2.Valid
  configuration : e.configuration.isMap = true
  entries : e.factorLevels ≠ []
  entry : ∀ entry ∈ e.factorLevels, entry.isMap = true
  filter : ∀ filter ∈ e.exceptFilters, filter.isMap = true

theorem parse_eq_ok :
    parse name raw = .ok e ↔ Shape.experiment [] raw = [] ∧ read raw = .ok e := by
  rw [parse]
  cases Shape.experiment [] raw with
  | nil => simp [Outcome.mapError_eq_ok]
  | cons violation rest => simp

/-- Field by field what reading does. -/
structure Reads (fields : List (String × Document)) (e : Experiment) : Prop where
  names : Record.checkNames fieldNames fields = .ok ()
  configuration : Record.required "base_experiment" .ok fields = .ok e.configuration
  commonRoles : Record.optional "common_roles" Record.roles [] fields = .ok e.commonRoles
  filters : Record.optional "except_filters" Record.items [] fields = .ok e.exceptFilters
  entries : ∃ entries, Record.optional "factor_levels" Record.items [] fields = .ok entries ∧
    e.factorLevels = entriesOf entries
  hosts : Record.required "host_types" (Record.mapping HostType.read) fields = .ok e.hostTypes
  repetitions : Record.optional "n_repetitions" Record.count 1 fields = .ok e.repetitions

theorem read_map_eq_ok : read (.map fields) = .ok e ↔ Reads fields e := by
  simp only [read, Outcome.bind_eq_ok]
  constructor
  · rintro ⟨⟨⟩, hnames, _, hconfiguration, _, hroles, _, hfilters, _, hentries, _, hhosts, _,
      hrepetitions, heq⟩
    cases heq
    exact ⟨hnames, hconfiguration, hroles, hfilters, ⟨_, hentries, rfl⟩, hhosts, hrepetitions⟩
  · rintro ⟨hnames, hconfiguration, hroles, hfilters, ⟨_, hentries, hlevels⟩, hhosts, hrepetitions⟩
    refine ⟨(), hnames, _, hconfiguration, _, hroles, _, hfilters, _, hentries, _, hhosts, _,
      hrepetitions, ?_⟩
    rw [← hlevels]
    rfl

section Shape

variable (hshape : Shape.experiment place (.map fields) = []) (hread : Reads fields e)

include hshape hread

/-- The host types of a document that passes its check are those it lists, one at least. -/
theorem aligned_hostTypes :
    ∃ hosts, Keyed.find? "host_types" fields = some (.map hosts) ∧ hosts ≠ [] ∧
      (∀ host ∈ hosts, Shape.hostType (place ++ ["host_types"] ++ [host.1]) host.2 = []) ∧
      Keyed.Aligned (fun _ d host => HostType.read d = .ok host) hosts e.hostTypes := by
  obtain ⟨value, hvalue, hmapping⟩ := Record.required_eq_ok.mp hread.hosts
  obtain ⟨hosts, rfl, haligned⟩ := Record.mapping_eq_ok.mp hmapping
  obtain ⟨_, heq, hne, hhosts⟩ :=
    Shape.hostTypes_eq_nil_iff.mp (Shape.check_of_field? hshape rfl hvalue)
  cases heq
  exact ⟨hosts, hvalue, hne, hhosts, haligned⟩

/-- The configuration of an experiment is a field of the document. -/
theorem find?_configuration :
    Keyed.find? "base_experiment" fields = some e.configuration ∧
      e.configuration.isMap = true := by
  obtain ⟨value, hvalue, heq⟩ := Record.required_eq_ok.mp hread.configuration
  cases heq
  exact ⟨hvalue, Shape.mapping_eq_nil_iff.mp (Shape.check_of_field? hshape rfl hvalue)⟩

theorem valid_of_reads : e.Valid := by
  obtain ⟨hosts, -, hne, hhosts, haligned⟩ := aligned_hostTypes hshape hread
  obtain ⟨entries, hentries, hlevels⟩ := hread.entries
  obtain ⟨hpositive, hbounded, -⟩ := Record.bounds_of_count hread.repetitions
    fun value hvalue => Shape.check_of_field? hshape rfl hvalue
  refine ⟨hpositive, hbounded, haligned.ne_nil hne, ?host, (find?_configuration hshape hread).2,
    ?entries, ?entry, ?filter⟩
  case host =>
    intro host hhost
    obtain ⟨raw, hraw, hread⟩ := haligned.exists_source hhost
    exact HostType.valid_of_read (hhosts _ hraw) hread
  case entries =>
    rw [hlevels, entriesOf]
    split
    · simp
    · next hne => simpa using hne
  case entry =>
    intro entry hentry
    rw [hlevels, entriesOf] at hentry
    split at hentry
    · rw [List.mem_singleton.mp hentry]
      rfl
    · exact Record.isMap_of_mem_items hentries
        (fun value hvalue => Shape.check_of_field? hshape rfl hvalue) hentry
  case filter =>
    intro filter hfilter
    exact Record.isMap_of_mem_items hread.filters
      (fun value hvalue => Shape.check_of_field? hshape rfl hvalue) hfilter

end Shape

/-- The parts of an experiment have their keys in order. -/
structure Ordered (e : Experiment) : Prop where
  hosts : Keyed.Sorted e.hostTypes
  configuration : e.configuration.Ordered
  entry : ∀ entry ∈ e.factorLevels, entry.Ordered

/-- What is read off an ordered document is ordered. -/
theorem ordered_of_reads (hd : (Document.map fields).Ordered)
    (hshape : Shape.experiment place (.map fields) = []) (hread : Reads fields e) : e.Ordered where
  hosts := by
    obtain ⟨hosts, hhosts, -, -, haligned⟩ := aligned_hostTypes hshape hread
    exact haligned.sorted (hd.find? hhosts).sorted
  configuration := hd.find? (find?_configuration hshape hread).1
  entry entry hentry := by
    obtain ⟨entries, hentries, hlevels⟩ := hread.entries
    rw [hlevels, entriesOf] at hentry
    split at hentry
    · rw [List.mem_singleton.mp hentry]
      exact ordered_empty
    · rcases Record.optional_eq_ok.mp hentries with ⟨value, hvalue, hitems⟩ | ⟨-, rfl⟩
      · rw [Record.items_eq_ok.mp hitems] at hvalue
        exact ordered_list_iff.mp (hd.find? hvalue) entry hentry
      · cases hentry

/-- A document that is parsed is a mapping, the fields of which are read. -/
theorem exists_reads_of_parse (h : parse name raw = .ok e) :
    ∃ fields, raw = .map fields ∧ Shape.experiment [] (.map fields) = [] ∧ Reads fields e := by
  obtain ⟨hshape, hread⟩ := parse_eq_ok.mp h
  obtain ⟨fields, rfl, -⟩ := Shape.record_eq_nil_iff.mp hshape
  exact ⟨fields, rfl, hshape, read_map_eq_ok.mp hread⟩

theorem valid_of_parse (h : parse name raw = .ok e) : e.Valid := by
  obtain ⟨fields, -, hshape, hread⟩ := exists_reads_of_parse h
  exact valid_of_reads hshape hread

theorem ordered_of_parse (hraw : raw.Ordered) (h : parse name raw = .ok e) : e.Ordered := by
  obtain ⟨fields, rfl, hshape, hread⟩ := exists_reads_of_parse h
  exact ordered_of_reads hraw hshape hread

theorem get?_configuration (h : parse name raw = .ok e) :
    raw.get? ["base_experiment"] = some e.configuration := by
  obtain ⟨fields, rfl, hshape, hread⟩ := exists_reads_of_parse h
  rw [get?_singleton]
  exact (find?_configuration hshape hread).1

theorem hostTypes_document (hs : Keyed.Sorted e.hostTypes) :
    Document.ofFields (Keyed.mapValues HostType.document e.hostTypes) =
      .map (Keyed.mapValues HostType.document e.hostTypes) := by
  rw [ofFields, Keyed.ofList_eq_self]
  exact List.pairwise_map.mpr hs

/-- The document that an experiment is written as has the right shape. -/
theorem experiment_document (he : e.Valid) (hs : Keyed.Sorted e.hostTypes) :
    Shape.experiment place e.document = [] := by
  refine Shape.record_ofFields ?_ (by simp [Keyed.keys]) (by simp [Keyed.keys])
  rw [hostTypes_document hs]
  simp only [List.forall_mem_cons]
  refine ⟨⟨_, rfl, ?_⟩, ⟨_, rfl, ?_⟩, ⟨_, rfl, ?_⟩, ⟨_, rfl, ?_⟩, ⟨_, rfl, ?_⟩, ⟨_, rfl, ?_⟩,
    by simp⟩
  · exact count_nat he.positive (by simp)
  · exact Shape.oneOf_eq_nil_iff.mpr (isRoles_map _)
  · refine Shape.hostTypes_eq_nil_iff.mpr ⟨_, rfl, by simpa [Keyed.mapValues] using he.hosts, ?_⟩
    intro host hhost
    obtain ⟨source, hsource, rfl⟩ := List.mem_map.mp hhost
    exact HostType.hostType_document (he.host source hsource)
  · exact Shape.mapping_eq_nil_iff.mpr he.configuration
  · exact Shape.listOf_mapping_eq_nil_iff.mpr ⟨_, rfl, he.entry⟩
  · exact Shape.listOf_mapping_eq_nil_iff.mpr ⟨_, rfl, he.filter⟩

/-- An experiment reads back from the document that it is written as. -/
theorem parse_document (he : e.Valid) (hs : Keyed.Sorted e.hostTypes) :
    parse name e.document = .ok e := by
  have hfind : ∀ key, e.document.field? key = Keyed.find? key _ :=
    field?_ofFields (by simp [Keyed.keys])
  refine parse_eq_ok.mpr ⟨experiment_document he hs, read_map_eq_ok.mpr ?_⟩
  constructor
  case names => exact Record.checkNames_ofList (by simp [Keyed.keys, fieldNames])
  case configuration => exact Record.required_eq_ok.mpr ⟨_, hfind _, rfl⟩
  case hosts =>
    have hhosts := (hfind "host_types").trans (congrArg some (hostTypes_document hs))
    refine Record.required_eq_ok.mpr ⟨_, hhosts, ?_⟩
    exact Record.mapping_eq_ok.mpr ⟨_, rfl, Keyed.aligned_mapValues fun host hhost =>
      HostType.read_document (he.host host hhost)⟩
  case entries =>
    refine ⟨e.factorLevels, ?_, by simp [entriesOf, he.entries]⟩
    exact Record.optional_eq_ok.mpr (.inl ⟨_, hfind _, Record.items_eq_ok.mpr rfl⟩)
  case commonRoles =>
    exact Record.optional_eq_ok.mpr (.inl ⟨_, hfind _, Record.roles_eq_ok.mpr (.inr rfl)⟩)
  case filters => exact Record.optional_eq_ok.mpr (.inl ⟨_, hfind _, Record.items_eq_ok.mpr rfl⟩)
  case repetitions =>
    exact Record.optional_eq_ok.mpr (.inl ⟨_, hfind _, Record.count_eq_ok.mpr ⟨rfl, he.bounded⟩⟩)

end Experiment

end ExperimentSuite
