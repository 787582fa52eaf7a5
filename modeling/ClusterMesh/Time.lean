import ClusterMesh.Word

/-! Points in time and lengths of time, in whole milliseconds. All arithmetic stays inside
sixty-four bits: a sum stops at the last instant and a difference at zero. -/
namespace ClusterMesh

structure Span where
  ms : UInt64
  deriving DecidableEq, Inhabited, Repr

structure Instant where
  ms : UInt64
  deriving DecidableEq, Inhabited, Repr

namespace Span

instance : LT Span := ⟨fun a b => a.ms < b.ms⟩
instance : LE Span := ⟨fun a b => a.ms ≤ b.ms⟩
instance (a b : Span) : Decidable (a < b) := inferInstanceAs (Decidable (a.ms < b.ms))
instance (a b : Span) : Decidable (a ≤ b) := inferInstanceAs (Decidable (a.ms ≤ b.ms))

def zero : Span := ⟨0⟩
def ofSeconds (s : UInt64) : Span := ⟨s.mulSat 1000⟩
def ofWord (ms : UInt32) : Span := ⟨ms.toUInt64⟩
def add (a b : Span) : Span := ⟨a.ms.addSat b.ms⟩
def scale (a : Span) (n : UInt64) : Span := ⟨a.ms.mulSat n⟩

instance : Add Span := ⟨add⟩

end Span

namespace Instant

instance : LT Instant := ⟨fun a b => a.ms < b.ms⟩
instance : LE Instant := ⟨fun a b => a.ms ≤ b.ms⟩
instance (a b : Instant) : Decidable (a < b) := inferInstanceAs (Decidable (a.ms < b.ms))
instance (a b : Instant) : Decidable (a ≤ b) := inferInstanceAs (Decidable (a.ms ≤ b.ms))

def zero : Instant := ⟨0⟩
def last : Instant := ⟨0xffffffffffffffff⟩
def ofSeconds (s : UInt64) : Instant := ⟨s.mulSat 1000⟩

def after (t : Instant) (d : Span) : Instant := ⟨t.ms.addSat d.ms⟩

def since (t earlier : Instant) : Span := ⟨t.ms.subSat earlier.ms⟩

def since? (t earlier : Instant) : Option Span :=
  if earlier ≤ t then some (t.since earlier) else none

def latest (a b : Instant) : Instant := if a < b then b else a

theorem le_iff_toNat {a b : Instant} : a ≤ b ↔ a.ms.toNat ≤ b.ms.toNat := UInt64.le_iff_toNat_le

theorem lt_iff_toNat {a b : Instant} : a < b ↔ a.ms.toNat < b.ms.toNat := UInt64.lt_iff_toNat_lt

theorem since_le_iff {now seen : Instant} {d : Span} :
    now.since seen ≤ d ↔ now.ms.toNat - seen.ms.toNat ≤ d.ms.toNat := by
  have hle : now.since seen ≤ d ↔ (now.ms.subSat seen.ms).toNat ≤ d.ms.toNat :=
    UInt64.le_iff_toNat_le
  rw [hle, UInt64.toNat_subSat]

theorem eq_of_toNat {a b : Instant} (h : a.ms.toNat = b.ms.toNat) : a = b :=
  congrArg mk (UInt64.toNat.inj h)

theorem toNat_after (t : Instant) (d : Span) :
    (t.after d).ms.toNat = min (t.ms.toNat + d.ms.toNat) 0xffffffffffffffff :=
  UInt64.toNat_addSat ..

theorem toNat_latest (a b : Instant) : (a.latest b).ms.toNat = max a.ms.toNat b.ms.toNat := by
  unfold latest
  split
  · next h =>
    rw [lt_iff_toNat] at h
    omega
  · next h =>
    rw [lt_iff_toNat] at h
    omega

theorem latest_eq_right {a b : Instant} (h : a ≤ b) : a.latest b = b := by
  rw [le_iff_toNat] at h
  apply eq_of_toNat
  rw [toNat_latest]
  omega

end Instant
end ClusterMesh
