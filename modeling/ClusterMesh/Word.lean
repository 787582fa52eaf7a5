/-! Machine words whose sums, differences and products stop at the ends of their range
instead of wrapping. Each law says what an operation does to the value as a natural number. -/

def UInt32.succSat (n : UInt32) : UInt32 :=
  if n = 0xffffffff then n else n + 1

def UInt32.subSat (a b : UInt32) : UInt32 :=
  if b ≤ a then a - b else 0

def UInt64.succSat (n : UInt64) : UInt64 :=
  if n = 0xffffffffffffffff then n else n + 1

def UInt64.addSat (a b : UInt64) : UInt64 :=
  if b ≤ 0xffffffffffffffff - a then a + b else 0xffffffffffffffff

def UInt64.subSat (a b : UInt64) : UInt64 :=
  if b ≤ a then a - b else 0

def UInt64.mulSat (a b : UInt64) : UInt64 :=
  UInt64.ofNat (min (a.toNat * b.toNat) 0xffffffffffffffff)

theorem UInt32.toNat_succSat (n : UInt32) : n.succSat.toNat = min (n.toNat + 1) 0xffffffff := by
  have h := n.toNat_lt
  unfold UInt32.succSat
  split
  · next e => subst e; decide
  · next e =>
    have : n.toNat ≠ 0xffffffff := fun c => e (UInt32.toNat.inj c)
    simp only [UInt32.toNat_add, UInt32.reduceToNat]
    omega

theorem UInt32.toNat_subSat (a b : UInt32) : (a.subSat b).toNat = a.toNat - b.toNat := by
  unfold UInt32.subSat
  split
  · next h => exact UInt32.toNat_sub_of_le a b h
  · next h =>
    rw [UInt32.le_iff_toNat_le] at h
    simp only [UInt32.reduceToNat]
    omega

theorem UInt64.toNat_succSat (n : UInt64) :
    n.succSat.toNat = min (n.toNat + 1) 0xffffffffffffffff := by
  have h := n.toNat_lt
  unfold UInt64.succSat
  split
  · next e => subst e; decide
  · next e =>
    have : n.toNat ≠ 0xffffffffffffffff := fun c => e (UInt64.toNat.inj c)
    simp only [UInt64.toNat_add, UInt64.reduceToNat]
    omega

theorem UInt64.toNat_addSat (a b : UInt64) :
    (a.addSat b).toNat = min (a.toNat + b.toNat) 0xffffffffffffffff := by
  have ha := a.toNat_lt
  have hb := b.toNat_lt
  have hd : (0xffffffffffffffff - a).toNat = 0xffffffffffffffff - a.toNat :=
    UInt64.toNat_sub_of_le _ _ (by
      rw [UInt64.le_iff_toNat_le]
      simp only [UInt64.reduceToNat]
      omega)
  unfold UInt64.addSat
  split
  · next h =>
    rw [UInt64.le_iff_toNat_le, hd] at h
    simp only [UInt64.toNat_add]
    omega
  · next h =>
    rw [UInt64.le_iff_toNat_le, hd] at h
    simp only [UInt64.reduceToNat]
    omega

theorem UInt64.toNat_subSat (a b : UInt64) : (a.subSat b).toNat = a.toNat - b.toNat := by
  unfold UInt64.subSat
  split
  · next h => exact UInt64.toNat_sub_of_le a b h
  · next h =>
    rw [UInt64.le_iff_toNat_le] at h
    simp only [UInt64.reduceToNat]
    omega

theorem UInt64.toNat_mulSat (a b : UInt64) :
    (a.mulSat b).toNat = min (a.toNat * b.toNat) 0xffffffffffffffff := by
  simp only [UInt64.mulSat, UInt64.toNat_ofNat']
  omega
