import EnergyPlatform.Store.Protocol
import Mathlib.Data.Prod.Lex

/-!
# Store.Ordering

The current-view selection rules: the rank of a version row. A higher rank wins; ranks are compared
lexicographically, as Python compares tuples.
-/

namespace EnergyPlatform

def semverKey (v : ContractVersion) : ℕ ×ₗ ℕ ×ₗ ℕ := toLex (v.major, toLex (v.minor, v.patch))

def orderingBasis (o : EnergyObservation) : OrderingBasis :=
  if o.sourcePublishedAt.isSome then .sourcePublishedAt else .fetchedAt

def orderingInstant (o : EnergyObservation) : Instant := o.sourcePublishedAt.getD o.fetchedAt

/-- The transport the registry names as the system of record for this row's metric. -/
def ownerTransportOf (reg : Registry) (o : EnergyObservation) : Option Transport :=
  (reg o.datasetId).bind fun contract => (contract.metric o.metric).bind MetricSpec.ownerTransport

/-- 1 when the row comes from the owning transport or the metric has no owner, else 0. -/
def ownerRank (reg : Registry) (o : EnergyObservation) : Nat :=
  match ownerTransportOf reg o with
  | none => 1
  | some owner => if o.sourceTransport = owner then 1 else 0

abbrev Rank := ℕ ×ₗ Instant ×ₗ (ℕ ×ₗ ℕ ×ₗ ℕ) ×ₗ Instant ×ₗ DerivationId

/-- Owner first, then the newest occurrence, the contract version, the registration of the
derivation, and the derivation id. -/
def rank (reg : Registry) (o : EnergyObservation) (registeredAt newest : Instant) : Rank :=
  toLex (ownerRank reg o, toLex (newest, toLex (semverKey o.contractVersion,
    toLex (registeredAt, o.derivationId))))

theorem semverKey_inj {v w : ContractVersion} : semverKey v = semverKey w ↔ v = w := by
  cases v; cases w
  simp [semverKey]

theorem ownerRank_le_one (reg : Registry) (o : EnergyObservation) : ownerRank reg o ≤ 1 := by
  unfold ownerRank
  split
  · exact le_rfl
  · split <;> omega

/-- Two ranks agree exactly when every component does. -/
theorem rank_eq_iff {reg : Registry} {o o' : EnergyObservation} {r n r' n' : Instant} :
    rank reg o r n = rank reg o' r' n' ↔ ownerRank reg o = ownerRank reg o' ∧ n = n' ∧
      o.contractVersion = o'.contractVersion ∧ r = r' ∧ o.derivationId = o'.derivationId := by
  simp [rank, semverKey_inj]

end EnergyPlatform
