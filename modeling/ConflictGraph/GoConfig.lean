import ConflictGraph.GoScheduler

/-!
# The configuration

`config.Config` with the check that loading runs on it, and the scheduler that the
command line builds from it. The settings can only replace three of the five
scheduling parameters; the other two stay those of the policy.
-/

namespace ConflictGraph.Go

/-! ## Settings -/

structure Config.Tracing : Type where
  mode : String
  redactPaths : Bool
  hashSalt : String
  minimumQuality : ℚ
  cgroupRoot : String
  controlSocket : String
  deriving DecidableEq

structure Config.Scheduler : Type where
  riskWeight : ℚ
  hardThreshold : ℚ
  refinementRounds : ℤ
  deriving DecidableEq

structure Config.Model : Type where
  artifact : String
  defaultNoEdgeRisk : ℚ
  deriving DecidableEq

structure Config : Type where
  version : ℤ
  workers : ℤ
  riskPolicy : RiskPolicy
  seed : ℤ
  artifactDir : String
  databaseURL : String
  apiAddress : String
  tracing : Config.Tracing
  scheduler : Config.Scheduler
  model : Config.Model
  deriving DecidableEq

/-- The problems that `Config.Validate` collects, in order. -/
def Config.problems (goos : String) (c : Config) : List String :=
  (if c.version ≠ 1 then [s!"unsupported configuration version {c.version}"] else []) ++
  (if c.workers ≤ 0 ∨ 1024 < c.workers then ["workers must be between 1 and 1024"] else []) ++
  (if c.riskPolicy.valid = false then ["invalid risk policy " ++ c.riskPolicy.text.quote]
    else []) ++
  (if c.tracing.mode ≠ "ebpf" ∧ c.tracing.mode ≠ "replay" ∧ c.tracing.mode ≠ "disabled" then
    ["tracing mode must be ebpf, replay, or disabled"] else []) ++
  (if c.tracing.mode = "ebpf" ∧ goos ≠ "linux" then ["eBPF tracing requires Linux"] else []) ++
  (if c.tracing.redactPaths = true ∧ c.tracing.hashSalt = "" then
    ["path hashing requires a non-empty salt"] else []) ++
  (if c.tracing.minimumQuality < 0 ∨ 1 < c.tracing.minimumQuality then
    ["minimum trace quality must be in [0,1]"] else []) ++
  (if c.scheduler.riskWeight < 0 ∨ c.scheduler.hardThreshold < 0 ∨ 1 < c.scheduler.hardThreshold
    then ["invalid scheduler risk parameters"] else []) ++
  (if c.scheduler.refinementRounds < 0 then ["scheduler refinement rounds cannot be negative"]
    else []) ++
  (if c.artifactDir = "" then ["artifact directory is required"] else []) ++
  (if c.model.artifact = "" then ["model artifact path is required"] else []) ++
  (if c.model.defaultNoEdgeRisk < 0 ∨ 1 < c.model.defaultNoEdgeRisk then
    ["default no-edge risk must be in [0,1]"] else []) ++
  (if c.databaseURL = "" then ["database URL is required"] else []) ++
  (if c.apiAddress = "" then ["API address is required"] else [])

/-- `Config.Validate` on the operating system `goos`. -/
def Config.validate (goos : String) (c : Config) : Except String Unit :=
  if c.problems goos = [] then .ok ()
  else .error ("\n".intercalate (c.problems goos))

/-! ## The scheduler of a configuration -/

/-- `configuredScheduler`. -/
def configuredScheduler (settings : Config) : Except String Scheduler :=
  match Scheduler.new settings.workers settings.riskPolicy settings.seed with
  | .error text => .error text
  | .ok engine =>
    .ok { engine with
      parameters := { engine.parameters with
        riskWeight := settings.scheduler.riskWeight
        hardThreshold := settings.scheduler.hardThreshold
        refinementRounds := settings.scheduler.refinementRounds.toNat } }

/-- The schedulers that a configuration admits: some worker, a policy with its
lookahead and bias, and risk parameters in range. -/
structure Scheduler.Admitted (s : Scheduler) : Prop where
  workers_pos : 0 < s.workers
  policy_valid : s.policy.valid = true
  lookahead_eq : s.parameters.lookahead = (parametersFor s.policy).lookahead
  utilizationBias_eq : s.parameters.utilizationBias = (parametersFor s.policy).utilizationBias
  riskWeight_nonneg : 0 ≤ s.parameters.riskWeight
  hardThreshold_nonneg : 0 ≤ s.parameters.hardThreshold
  hardThreshold_le_one : s.parameters.hardThreshold ≤ 1

instance (s : Scheduler) : Decidable s.Admitted :=
  decidable_of_iff
    (0 < s.workers ∧ s.policy.valid = true ∧
      s.parameters.lookahead = (parametersFor s.policy).lookahead ∧
      s.parameters.utilizationBias = (parametersFor s.policy).utilizationBias ∧
      0 ≤ s.parameters.riskWeight ∧ 0 ≤ s.parameters.hardThreshold ∧
      s.parameters.hardThreshold ≤ 1)
    ⟨fun ⟨h₁, h₂, h₃, h₄, h₅, h₆, h₇⟩ => ⟨h₁, h₂, h₃, h₄, h₅, h₆, h₇⟩,
      fun ⟨h₁, h₂, h₃, h₄, h₅, h₆, h₇⟩ => ⟨h₁, h₂, h₃, h₄, h₅, h₆, h₇⟩⟩

/-- Every policy looks ahead at least at one candidate. -/
theorem parametersFor_lookahead_pos (policy : RiskPolicy) :
    0 < (parametersFor policy).lookahead := by
  cases policy <;> exact Nat.succ_pos _

theorem Scheduler.Admitted.lookahead_pos {s : Scheduler} (h : s.Admitted) :
    0 < s.parameters.lookahead := by
  rw [h.lookahead_eq]
  exact parametersFor_lookahead_pos s.policy

/-- **A configuration that passes its check yields an admitted scheduler.** -/
theorem configuredScheduler_admitted {goos : String} {settings : Config}
    (h : settings.validate goos = .ok ()) :
    ∃ engine, configuredScheduler settings = .ok engine ∧ engine.Admitted := by
  have hnil : settings.problems goos = [] := by
    by_contra hne
    rw [Config.validate, if_neg hne] at h
    cases h
  simp only [Config.problems, List.append_eq_nil_iff, ite_eq_right_iff, List.cons_ne_nil,
    imp_false, not_or, not_le, not_lt, Bool.not_eq_false] at hnil
  obtain ⟨⟨⟨⟨⟨⟨⟨⟨⟨⟨⟨⟨⟨-, hworkers⟩, hpolicy⟩, -⟩, -⟩, -⟩, -⟩, hrisk⟩, -⟩, -⟩, -⟩, -⟩, -⟩, -⟩ := hnil
  rw [configuredScheduler, Scheduler.new, if_neg (not_le.mpr hworkers.1),
    if_neg (by rw [hpolicy]; exact Bool.noConfusion)]
  exact ⟨_, rfl, hworkers.1, hpolicy, rfl, rfl, hrisk.1, hrisk.2.1, hrisk.2.2⟩

end ConflictGraph.Go
