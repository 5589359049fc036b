/-
**How transfer metrics add up.**

`metrics.rs`: peers, trackers and torrents count bytes and keep samples of their counters.  A scope that has others
below it adds up their totals and takes over their samples.  A rate is never stored: it is derived from a sample, and
the rates of several samples are added.

All additions stop at the largest number.  That is associative and commutative all the same, because what is above the
largest number stays there.  A rate may also be unknown, which is not the same as zero: no sample has been taken.

Main definitions:

* `ByteCount`, `BytesPerSecond`, `TrafficTotals`, `TransferRates` — the quantities, with their additions;
* `TransferSample.rates`, `TransferMetrics.rates`, `TransferRates.aggregate`, `TransferMetrics.aggregate`;
* `TorrentMetrics.calculateEta` — the remaining time.

Main results:

* `TransferMetrics.rates_eq`, `TransferRates.aggregate_eq` — rates are sums of what is known;
* `TransferMetrics.aggregate_eq` — totals are sums, and samples are put together;
* `transfer_metrics_consistent` — **metrics aggregate consistently**.
-/

import Tortillas.KnownSums
import Tortillas.Usize
import Mathlib.Order.Bounds.Defs

set_option relaxedAutoImplicit false
set_option autoImplicit false

namespace Tortillas

/-! ### Quantities -/

/-- `ByteCount` and `BytesPerSecond`: a `u64` whose addition saturates. -/
structure Quantity where
  val : UInt64
  deriving DecidableEq

abbrev ByteCount := Quantity

abbrev BytesPerSecond := Quantity

/-- `Seconds` -/
abbrev Seconds := UInt64

namespace Quantity

variable {a b c : Quantity}

/-- `saturating_add`.  A `u64` is as large as a `usize`. -/
def saturatingAdd (a b : Quantity) : Quantity := ⟨UInt64.ofNat (Tortillas.saturatingAdd a.val.toNat b.val.toNat)⟩

/-- `saturating_sub` -/
def saturatingSub (a b : Quantity) : Quantity := ⟨UInt64.ofNat (a.val.toNat - b.val.toNat)⟩

theorem val_le (a : Quantity) : a.val.toNat ≤ usizeMax := Nat.le_pred_of_lt a.val.toNat_lt

theorem ext_toNat (h : a.val.toNat = b.val.toNat) : a = b := by
  cases a
  cases b
  congr
  exact UInt64.toNat_inj.1 h

theorem toNat_saturatingAdd (a b : Quantity) :
    (a.saturatingAdd b).val.toNat = min (a.val.toNat + b.val.toNat) usizeMax :=
  UInt64.toNat_ofNat_of_lt' (Nat.lt_succ_of_le (Nat.min_le_right _ _))

/-- `ZERO` -/
instance : Zero Quantity := ⟨⟨0⟩⟩

instance : Add Quantity := ⟨saturatingAdd⟩

theorem toNat_zero : (0 : Quantity).val.toNat = 0 := rfl

theorem toNat_add (a b : Quantity) : (a + b).val.toNat = min (a.val.toNat + b.val.toNat) usizeMax :=
  toNat_saturatingAdd a b

/-- Quantities that saturate may be added in any order. -/
instance : AddCommMonoid Quantity where
  add_assoc a b c := by
    refine ext_toNat ?_
    simp only [toNat_add]
    omega
  zero_add a := by
    have hle := a.val_le
    refine ext_toNat ?_
    rw [toNat_add, toNat_zero]
    omega
  add_zero a := by
    have hle := a.val_le
    refine ext_toNat ?_
    rw [toNat_add, toNat_zero]
    omega
  add_comm a b := by
    refine ext_toNat ?_
    rw [toNat_add, toNat_add, Nat.add_comm]
  nsmul := nsmulRec

/-- A sum of quantities is what the numbers add up to, or the largest number. -/
theorem toNat_sum (quantities : List Quantity) :
    quantities.sum.val.toNat = min (quantities.map fun q => q.val.toNat).sum usizeMax := by
  induction quantities with
  | nil => rfl
  | cons q quantities ih =>
      rw [List.sum_cons, toNat_add, ih, List.map_cons, List.sum_cons]
      omega

theorem toNat_map_sum {M : Type} [AddCommMonoid M] (field : M →+ Quantity) (xs : List M) :
    (field xs.sum).val.toNat = min (xs.map fun x => (field x).val.toNat).sum usizeMax := by
  rw [map_list_sum, toNat_sum, List.map_map]
  rfl

end Quantity

structure TrafficTotals where
  downloaded : ByteCount
  uploaded : ByteCount
  deriving DecidableEq

structure TransferRates where
  download : BytesPerSecond
  upload : BytesPerSecond
  deriving DecidableEq

/-- `TrafficTotals::saturating_add` -/
def TrafficTotals.saturatingAdd (a b : TrafficTotals) : TrafficTotals :=
  ⟨a.downloaded.saturatingAdd b.downloaded, a.uploaded.saturatingAdd b.uploaded⟩

instance : Zero TrafficTotals := ⟨⟨0, 0⟩⟩

instance : Add TrafficTotals := ⟨TrafficTotals.saturatingAdd⟩

instance : AddCommMonoid TrafficTotals where
  add_assoc a b c := congrArg₂ TrafficTotals.mk (add_assoc _ _ _) (add_assoc _ _ _)
  zero_add a := congrArg₂ TrafficTotals.mk (zero_add _) (zero_add _)
  add_zero a := congrArg₂ TrafficTotals.mk (add_zero _) (add_zero _)
  add_comm a b := congrArg₂ TrafficTotals.mk (add_comm _ _) (add_comm _ _)
  nsmul := nsmulRec

instance : Zero TransferRates := ⟨⟨0, 0⟩⟩

/-- Rates are added as `aggregate` and `rates` do. -/
instance : Add TransferRates := ⟨fun a b => ⟨a.download.saturatingAdd b.download, a.upload.saturatingAdd b.upload⟩⟩

instance : AddCommMonoid TransferRates where
  add_assoc a b c := congrArg₂ TransferRates.mk (add_assoc _ _ _) (add_assoc _ _ _)
  zero_add a := congrArg₂ TransferRates.mk (zero_add _) (zero_add _)
  add_zero a := congrArg₂ TransferRates.mk (add_zero _) (add_zero _)
  add_comm a b := congrArg₂ TransferRates.mk (add_comm _ _) (add_comm _ _)
  nsmul := nsmulRec

/-! ### Samples and metrics -/

/-- `u128::MAX` -/
def u128Max : ℕ := 2 ^ 128 - 1

/-- `u128::saturating_mul` -/
def saturatingMulU128 (a b : ℕ) : ℕ := min (a * b) u128Max

/-- A `u64` times a billion is far from the largest `u128`. -/
theorem saturatingMulU128_bytes {bytes : ℕ} (h : bytes ≤ usizeMax) :
    saturatingMulU128 bytes 1000000000 = bytes * 10 ^ 9 := by
  have husize : usizeMax = 2 ^ 64 - 1 := rfl
  have hu128 : u128Max = 2 ^ 128 - 1 := rfl
  rw [saturatingMulU128]
  omega

/-- `std::time::Duration` -/
structure Duration where
  secs : UInt64
  nanos : ℕ
  valid : nanos < 10 ^ 9
  deriving DecidableEq

/-- `as_nanos` -/
def Duration.asNanos (d : Duration) : ℕ := d.secs.toNat * 10 ^ 9 + d.nanos

theorem Duration.asNanos_le (d : Duration) : d.asNanos ≤ u128Max := by
  have hsecs := d.secs.toNat_lt
  have hnanos := d.valid
  have hu128 : u128Max = 2 ^ 128 - 1 := rfl
  rw [Duration.asNanos]
  omega

namespace TransferRates

/-- `rate` of `between`. -/
def rate (previous current : ByteCount) (elapsed : Duration) : BytesPerSecond :=
  let elapsedNanos := elapsed.asNanos
  if elapsedNanos = 0 ∨ current.val < previous.val then 0
  else
    let bytes := (current.saturatingSub previous).val.toNat
    -- time has passed, so that `checked_div` divides
    let perSecond := saturatingMulU128 bytes 1000000000 / elapsedNanos
    if perSecond ≤ usizeMax then ⟨UInt64.ofNat perSecond⟩ else ⟨UInt64.ofNat usizeMax⟩

def between (previous current : TrafficTotals) (elapsed : Duration) : TransferRates where
  download := rate previous.downloaded current.downloaded elapsed
  upload := rate previous.uploaded current.uploaded elapsed

end TransferRates

structure TransferSample where
  previousTotals : TrafficTotals
  currentTotals : TrafficTotals
  elapsed : Duration
  deriving DecidableEq

def TransferSample.rates (s : TransferSample) : TransferRates :=
  .between s.previousTotals s.currentTotals s.elapsed

structure TransferMetrics where
  totals : TrafficTotals
  samples : List TransferSample
  deriving DecidableEq

/-- What has transfer metrics: peers, trackers and torrents. -/
class HasTransferMetrics (T : Type) where
  transferMetrics : T → TransferMetrics

export HasTransferMetrics (transferMetrics)

/-- What `aggregate` and `rates` do with the rates they come to: they are added to what is there, or to zero. -/
def addRates (aggregate : Option TransferRates) (rates : TransferRates) : Option TransferRates :=
  let current := aggregate.getD 0
  some ⟨current.download.saturatingAdd rates.download, current.upload.saturatingAdd rates.upload⟩

def TransferMetrics.rates (m : TransferMetrics) : Option TransferRates :=
  m.samples.foldl (fun aggregate sample => addRates aggregate sample.rates) none

section Sources

variable {T : Type} [HasTransferMetrics T]

def transferRates (source : T) : Option TransferRates := (transferMetrics source).rates

def TransferRates.aggregate (sources : List T) : Option TransferRates :=
  sources.foldl (fun aggregate source =>
    match transferRates source with
    | none => aggregate
    | some rates => addRates aggregate rates) none

def TransferMetrics.aggregate (sources : List T) : TransferMetrics :=
  sources.foldl (fun aggregate source =>
    ⟨aggregate.totals.saturatingAdd (transferMetrics source).totals,
      aggregate.samples ++ (transferMetrics source).samples⟩) ⟨0, []⟩

end Sources

/-- The progress of a torrent, as far as its remaining time depends on it. -/
structure ContentProgress where
  remainingBytes : Option ByteCount

structure TorrentMetrics where
  traffic : TransferMetrics
  progress : ContentProgress
  eta : Option Seconds

namespace TorrentMetrics

def calculateEta (progress : ContentProgress) (rates : Option TransferRates) : Option Seconds := do
  let remaining ← progress.remainingBytes
  let downloadRate := (← rates).download
  if 0 < downloadRate.val then
    some (UInt64.ofNat (divCeil remaining.val.toNat downloadRate.val.toNat))
  else none

def new (traffic : TransferMetrics) (progress : ContentProgress) : TorrentMetrics where
  traffic := traffic
  progress := progress
  eta := calculateEta progress traffic.rates

instance : HasTransferMetrics TorrentMetrics := ⟨traffic⟩

end TorrentMetrics

/-! ### Aggregation -/

/-- What the counters of a sample add to a rate: bytes a second, rounded down, unless nothing can be told. -/
def contribution (previous current : ByteCount) (elapsed : Duration) : ℕ :=
  if elapsed.asNanos = 0 ∨ current.val < previous.val then 0
  else min ((current.val.toNat - previous.val.toNat) * 10 ^ 9 / elapsed.asNanos) usizeMax

theorem toNat_rate (previous current : ByteCount) (elapsed : Duration) :
    (TransferRates.rate previous current elapsed).val.toNat = contribution previous current elapsed := by
  have hsmall : current.val.toNat - previous.val.toNat ≤ usizeMax :=
    Nat.le_trans (Nat.sub_le _ _) current.val_le
  have hbytes : (current.saturatingSub previous).val.toNat = current.val.toNat - previous.val.toNat :=
    UInt64.toNat_ofNat_of_lt' (Nat.lt_of_le_of_lt (Nat.sub_le _ _) current.val.toNat_lt)
  simp only [TransferRates.rate, contribution, hbytes, saturatingMulU128_bytes hsmall]
  split
  · rfl
  · split
    · rename_i hle
      rw [Nat.min_eq_left hle]
      exact UInt64.toNat_ofNat_of_lt' (Nat.lt_succ_of_le hle)
    · rename_i hlt
      rw [Nat.min_eq_right (Nat.le_of_not_le hlt)]
      rfl

/-- The rate of some metrics is the sum of the rates of their samples. -/
theorem TransferMetrics.rates_eq (m : TransferMetrics) :
    m.rates = sumKnown ((m.samples.map TransferSample.rates).map some) := by
  rw [TransferMetrics.rates, sumKnown, List.map_map, List.foldl_map]
  rfl

section Sources

variable {T : Type} [HasTransferMetrics T]

theorem TransferRates.aggregate_eq (sources : List T) :
    TransferRates.aggregate sources = sumKnown (sources.map transferRates) := by
  rw [TransferRates.aggregate, sumKnown, List.foldl_map]
  refine congrArg (fun step => sources.foldl step none) (funext₂ fun aggregate source => ?_)
  cases transferRates source <;> rfl

/-- Totals are added up, and samples are put together. -/
theorem TransferMetrics.aggregate_eq (sources : List T) :
    TransferMetrics.aggregate sources =
      ⟨(sources.map fun source => (transferMetrics source).totals).sum,
        sources.flatMap fun source => (transferMetrics source).samples⟩ := by
  induction sources using List.reverseRecOn with
  | nil => rfl
  | append_singleton sources source ih =>
      rw [TransferMetrics.aggregate] at ih
      rw [TransferMetrics.aggregate, List.foldl_append, ih]
      simp only [List.foldl_cons, List.foldl_nil, List.map_append, List.sum_append, List.flatMap_append,
        List.map_cons, List.map_nil, List.sum_cons, List.sum_nil, add_zero, List.flatMap_cons, List.flatMap_nil,
        List.append_nil]
      rfl

/-- The rates of the whole are the sum of those of its parts, over all samples. -/
theorem TransferMetrics.rates_aggregate (sources : List T) :
    (TransferMetrics.aggregate sources).rates = TransferRates.aggregate sources := by
  rw [TransferMetrics.rates_eq, TransferMetrics.aggregate_eq, TransferRates.aggregate_eq, List.flatMap_def,
    List.map_flatten, List.map_flatten, ← sumKnown_flatten, List.map_map, List.map_map, List.map_map]
  refine congrArg sumKnown (List.map_congr_left fun source _ => ?_)
  exact (TransferMetrics.rates_eq _).symm

end Sources

/-- The numbers of the sum of several rates are the sums of their numbers, or the largest number. -/
theorem TransferRates.toNat_sum (rates : List TransferRates) :
    rates.sum.download.val.toNat = min (rates.map fun r => r.download.val.toNat).sum usizeMax ∧
      rates.sum.upload.val.toNat = min (rates.map fun r => r.upload.val.toNat).sum usizeMax :=
  ⟨Quantity.toNat_map_sum ⟨⟨TransferRates.download, rfl⟩, fun _ _ => rfl⟩ rates,
    Quantity.toNat_map_sum ⟨⟨TransferRates.upload, rfl⟩, fun _ _ => rfl⟩ rates⟩

theorem TrafficTotals.toNat_sum (totals : List TrafficTotals) :
    totals.sum.downloaded.val.toNat = min (totals.map fun t => t.downloaded.val.toNat).sum usizeMax ∧
      totals.sum.uploaded.val.toNat = min (totals.map fun t => t.uploaded.val.toNat).sum usizeMax :=
  ⟨Quantity.toNat_map_sum ⟨⟨TrafficTotals.downloaded, rfl⟩, fun _ _ => rfl⟩ totals,
    Quantity.toNat_map_sum ⟨⟨TrafficTotals.uploaded, rfl⟩, fun _ _ => rfl⟩ totals⟩

section Sources

variable {T U : Type} [HasTransferMetrics T] [HasTransferMetrics U]

/-- A rate is unknown only if nothing has a sample. -/
theorem TransferRates.aggregate_eq_none_iff (sources : List T) :
    TransferRates.aggregate sources = none ↔ ∀ source ∈ sources, (transferMetrics source).samples = [] := by
  rw [← TransferMetrics.rates_aggregate, TransferMetrics.rates_eq, sumKnown_map_some, TransferMetrics.aggregate_eq]
  simp only [ite_eq_left_iff, reduceCtorEq, imp_false, not_not, List.map_eq_nil_iff, List.flatMap_eq_nil_iff]

theorem TransferMetrics.aggregate_perm {sources sources' : List T} (h : sources.Perm sources') :
    (TransferMetrics.aggregate sources).totals = (TransferMetrics.aggregate sources').totals ∧
      TransferRates.aggregate sources = TransferRates.aggregate sources' := by
  rw [TransferMetrics.aggregate_eq, TransferMetrics.aggregate_eq, TransferRates.aggregate_eq,
    TransferRates.aggregate_eq]
  exact ⟨(h.map _).sum_eq, sumKnown_perm (h.map _)⟩

/-- Scopes that took over groups of sources stand for the sources. -/
theorem TransferMetrics.aggregate_groups {groups : List (List T)} {scopes : List U}
    (h : scopes.map transferMetrics = groups.map TransferMetrics.aggregate) :
    (TransferMetrics.aggregate scopes).totals = (TransferMetrics.aggregate groups.flatten).totals ∧
      TransferRates.aggregate scopes = TransferRates.aggregate groups.flatten := by
  refine ⟨?_, ?_⟩
  · have htotals : (scopes.map fun scope => (transferMetrics scope).totals) =
        groups.map fun group => (group.map fun source => (transferMetrics source).totals).sum := by
      have hmap := congrArg (List.map TransferMetrics.totals) h
      simpa only [List.map_map, Function.comp_def, TransferMetrics.aggregate_eq] using hmap
    rw [TransferMetrics.aggregate_eq, TransferMetrics.aggregate_eq, htotals, List.map_flatten, List.sum_flatten,
      List.map_map]
    rfl
  · have hrates : scopes.map transferRates = groups.map fun group => sumKnown (group.map transferRates) := by
      have hmap := congrArg (List.map TransferMetrics.rates) h
      simp only [List.map_map, Function.comp_def, TransferMetrics.rates_aggregate, TransferRates.aggregate_eq] at hmap
      exact hmap
    rw [TransferRates.aggregate_eq, TransferRates.aggregate_eq, hrates, List.map_flatten, ← sumKnown_flatten,
      List.map_map]
    rfl

/-- A known rate is the sum of what the samples add to it. -/
theorem TransferRates.toNat_aggregate {sources : List T} {rates : TransferRates}
    (h : TransferRates.aggregate sources = some rates) :
    rates.download.val.toNat =
        min ((sources.flatMap fun source => (transferMetrics source).samples).map fun sample =>
          contribution sample.previousTotals.downloaded sample.currentTotals.downloaded sample.elapsed).sum
          usizeMax ∧
      rates.upload.val.toNat =
        min ((sources.flatMap fun source => (transferMetrics source).samples).map fun sample =>
          contribution sample.previousTotals.uploaded sample.currentTotals.uploaded sample.elapsed).sum
          usizeMax := by
  rw [← TransferMetrics.rates_aggregate, TransferMetrics.rates_eq, sumKnown_map_some,
    TransferMetrics.aggregate_eq] at h
  split at h
  · exact absurd h nofun
  · have hdownload : ∀ sample : TransferSample, sample.rates.download.val.toNat =
        contribution sample.previousTotals.downloaded sample.currentTotals.downloaded sample.elapsed :=
      fun sample => toNat_rate _ _ _
    have hupload : ∀ sample : TransferSample, sample.rates.upload.val.toNat =
        contribution sample.previousTotals.uploaded sample.currentTotals.uploaded sample.elapsed :=
      fun sample => toNat_rate _ _ _
    cases h
    simp only [TransferRates.toNat_sum, List.map_map, Function.comp_def, hdownload, hupload, and_self]

end Sources

/-! ### The remaining time -/

section Eta

variable {progress : ContentProgress} {rates : Option TransferRates}

theorem TorrentMetrics.calculateEta_eq_none_iff :
    calculateEta progress rates = none ↔
      progress.remainingBytes = none ∨ rates = none ∨ ∃ r, rates = some r ∧ r.download = 0 := by
  rw [calculateEta]
  cases progress.remainingBytes with
  | none => simp
  | some remaining =>
      cases rates with
      | none => simp
      | some r =>
          have hzero : 0 < r.download.val ↔ r.download ≠ 0 := by
            rw [UInt64.lt_iff_toNat_lt]
            refine ⟨fun hpos hzero => ?_, fun hne => ?_⟩
            · rw [hzero] at hpos
              exact Nat.lt_irrefl _ hpos
            · exact Nat.pos_of_ne_zero fun hnat => hne (Quantity.ext_toNat hnat)
          simp [hzero]

/-- The remaining time is the shortest in which everything arrives, in whole seconds. -/
theorem TorrentMetrics.isLeast_calculateEta {s : Seconds} (h : calculateEta progress rates = some s) :
    ∃ remaining r, progress.remainingBytes = some remaining ∧ rates = some r ∧
      IsLeast {n : ℕ | remaining.val.toNat ≤ n * r.download.val.toNat} s.toNat := by
  rw [calculateEta] at h
  simp only [Option.bind_eq_bind, Option.bind_eq_some_iff] at h
  obtain ⟨remaining, hremaining, r, hr, h⟩ := h
  split at h
  · rename_i hpos
    have hpos' : 0 < r.download.val.toNat := UInt64.lt_iff_toNat_lt.1 hpos
    have hs : s.toNat = divCeil remaining.val.toNat r.download.val.toNat := by
      cases h
      exact UInt64.toNat_ofNat_of_lt' (Nat.lt_of_le_of_lt (divCeil_le_self hpos') remaining.val.toNat_lt)
    refine ⟨remaining, r, hremaining, hr, ?_, fun n hn => ?_⟩
    · rw [hs]
      exact le_divCeil_mul hpos'
    · rw [hs]
      refine Nat.le_of_not_lt fun hlt => ?_
      exact Nat.not_lt_of_le hn ((lt_divCeil_iff hpos').1 hlt)
  · exact absurd h nofun

end Eta

/-- **Metrics aggregate consistently.**  The rates of an aggregate are the aggregate of the rates, and they are unknown
only if nothing has a sample.  The order of the sources does not matter, and groups of them may be aggregated first.
Rates and totals are plain sums, up to the largest number, of what each sample or source has; no multiplication or
duration is cut off on the way; and the remaining time is the shortest that suffices at the rate, if there is any. -/
theorem transfer_metrics_consistent {T U : Type} [HasTransferMetrics T] [HasTransferMetrics U] (xs : List T) :
    (TransferMetrics.aggregate xs).rates = TransferRates.aggregate xs ∧
      (TransferRates.aggregate xs = none ↔ ∀ x ∈ xs, (transferMetrics x).samples = []) ∧
      (∀ ys : List T, xs.Perm ys →
        (TransferMetrics.aggregate xs).totals = (TransferMetrics.aggregate ys).totals ∧
          TransferRates.aggregate xs = TransferRates.aggregate ys) ∧
      (∀ (groups : List (List T)) (scopes : List U), groups.flatten = xs →
        scopes.map transferMetrics = groups.map TransferMetrics.aggregate →
        (TransferMetrics.aggregate scopes).totals = (TransferMetrics.aggregate xs).totals ∧
          TransferRates.aggregate scopes = TransferRates.aggregate xs) ∧
      ((TransferMetrics.aggregate xs).totals.downloaded.val.toNat =
          min (xs.map fun x => (transferMetrics x).totals.downloaded.val.toNat).sum (2 ^ 64 - 1) ∧
        (TransferMetrics.aggregate xs).totals.uploaded.val.toNat =
          min (xs.map fun x => (transferMetrics x).totals.uploaded.val.toNat).sum (2 ^ 64 - 1)) ∧
      (∀ rates, TransferRates.aggregate xs = some rates →
        rates.download.val.toNat =
            min ((xs.flatMap fun x => (transferMetrics x).samples).map fun sample =>
              contribution sample.previousTotals.downloaded sample.currentTotals.downloaded sample.elapsed).sum
              (2 ^ 64 - 1) ∧
          rates.upload.val.toNat =
            min ((xs.flatMap fun x => (transferMetrics x).samples).map fun sample =>
              contribution sample.previousTotals.uploaded sample.currentTotals.uploaded sample.elapsed).sum
              (2 ^ 64 - 1)) ∧
      (∀ sample : TransferSample,
        sample.rates.download.val.toNat =
            contribution sample.previousTotals.downloaded sample.currentTotals.downloaded sample.elapsed ∧
          sample.rates.upload.val.toNat =
            contribution sample.previousTotals.uploaded sample.currentTotals.uploaded sample.elapsed) ∧
      (∀ bytes : ByteCount, saturatingMulU128 bytes.val.toNat 1000000000 = bytes.val.toNat * 10 ^ 9) ∧
      (∀ elapsed : Duration, elapsed.asNanos ≤ u128Max) ∧
      ∀ (progress : ContentProgress) (rates : Option TransferRates),
        (TorrentMetrics.calculateEta progress rates = none ↔
          progress.remainingBytes = none ∨ rates = none ∨ ∃ r, rates = some r ∧ r.download = 0) ∧
        ∀ s, TorrentMetrics.calculateEta progress rates = some s →
          ∃ remaining r, progress.remainingBytes = some remaining ∧ rates = some r ∧
            IsLeast {n : ℕ | remaining.val.toNat ≤ n * r.download.val.toNat} s.toNat := by
  refine ⟨TransferMetrics.rates_aggregate xs, TransferRates.aggregate_eq_none_iff xs,
    fun ys hperm => TransferMetrics.aggregate_perm hperm, ?_, ?_,
    fun rates hrates => TransferRates.toNat_aggregate hrates, fun sample => ⟨toNat_rate _ _ _, toNat_rate _ _ _⟩,
    fun bytes => saturatingMulU128_bytes bytes.val_le, Duration.asNanos_le,
    fun progress rates => ⟨TorrentMetrics.calculateEta_eq_none_iff, fun s => TorrentMetrics.isLeast_calculateEta⟩⟩
  · intro groups scopes hgroups hscopes
    rw [← hgroups]
    exact TransferMetrics.aggregate_groups hscopes
  · rw [TransferMetrics.aggregate_eq]
    refine ⟨(TrafficTotals.toNat_sum _).1.trans ?_, (TrafficTotals.toNat_sum _).2.trans ?_⟩
    · rw [List.map_map]
      rfl
    · rw [List.map_map]
      rfl

/-- Two torrents, of which one has not been sampled, each within a scope of its own: ten bytes a second arrive, so that
the last byte of a hundred and one arrives in the eleventh second. -/
theorem transfer_metrics_consistent_sample :
    let sample : TransferSample := ⟨⟨⟨5⟩, ⟨0⟩⟩, ⟨⟨25⟩, ⟨3⟩⟩, ⟨2, 0, by decide⟩⟩
    let busy : TorrentMetrics := .new ⟨⟨⟨25⟩, ⟨3⟩⟩, [sample]⟩ ⟨some ⟨101⟩⟩
    let idle : TorrentMetrics := .new ⟨⟨⟨7⟩, ⟨0⟩⟩, []⟩ ⟨none⟩
    let scopes : List TorrentMetrics := [.new (.aggregate [busy]) ⟨none⟩, .new (.aggregate [idle]) ⟨none⟩]
    (TransferMetrics.aggregate [idle, busy]).totals = ⟨⟨32⟩, ⟨3⟩⟩ ∧
      TransferRates.aggregate [idle, busy] = some ⟨⟨10⟩, ⟨1⟩⟩ ∧
      TransferRates.aggregate scopes = some ⟨⟨10⟩, ⟨1⟩⟩ ∧
      10 = min [contribution ⟨5⟩ ⟨25⟩ ⟨2, 0, by decide⟩].sum (2 ^ 64 - 1) ∧
      busy.eta = some 11 ∧ IsLeast {n : ℕ | 101 ≤ n * 10} 11 := by
  intro sample busy idle scopes
  have htotals : (TransferMetrics.aggregate [busy, idle]).totals = ⟨⟨32⟩, ⟨3⟩⟩ := by decide
  have hrates : TransferRates.aggregate [busy, idle] = some ⟨⟨10⟩, ⟨1⟩⟩ := by decide
  have heta : TorrentMetrics.calculateEta ⟨some ⟨101⟩⟩ (some ⟨⟨10⟩, ⟨1⟩⟩) = some 11 := by decide
  obtain ⟨-, -, hperm, hgroups, -, hsum, -, -, -, htime⟩ :=
    transfer_metrics_consistent (U := TorrentMetrics) [busy, idle]
  obtain ⟨htotals', hrates'⟩ := hperm [idle, busy] (List.Perm.swap _ _ _)
  obtain ⟨-, hscopes⟩ := hgroups [[busy], [idle]] scopes rfl rfl
  obtain ⟨remaining, r, hremaining, hr, hleast⟩ := (htime _ _).2 _ heta
  cases hremaining
  cases hr
  exact ⟨htotals'.symm.trans htotals, hrates'.symm.trans hrates, hscopes.trans hrates, (hsum _ hrates).1, by decide,
    hleast⟩

end Tortillas
