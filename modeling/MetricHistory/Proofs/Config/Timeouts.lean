import MetricHistory.Proofs.Config.Validity
import MetricHistory.Proofs.Decimal.Range

/-!
# Timeouts of valid configurations

A timeout is configured as a number of minutes or seconds, and kept as a duration of 64 bits.  A
configuration is refused when the number is not positive, but not when it is too large for its
duration.

* `Duration.IsTimeout` : a duration is positive and exactly a number of units.
* `Config.timeouts_exact_iff` : **a timeout of a valid configuration is exact as long as its
  nanoseconds fit into 64 bits, and no longer.**
* `Config.longTimeouts_negative` : a valid configuration with negative timeouts.
-/

namespace MetricHistory

/-! ### Whole numbers of units -/

namespace Duration

/-- The duration is positive, has 64 bits, and is exactly `n` units. -/
def IsTimeout (d : Duration) (n : Int) (unit : Duration) : Prop :=
  0 < d ∧ d ≤ maxInt64 ∧ d = n * unit

theorem isTimeout_times_iff {n : Int} {unit : Duration} (hn : 0 < n) (hunit : 0 < unit) :
    (times n unit).IsTimeout n unit ↔ n ≤ maxInt64 / unit := by
  have hpos : 0 < n * unit := Int.mul_pos hn hunit
  rw [Int.le_ediv_iff_mul_le hunit]
  constructor
  · rintro ⟨-, hle, heq⟩
    rwa [heq] at hle
  · intro hle
    have hmin : minInt64 ≤ n * unit := by
      have : minInt64 ≤ 0 := by decide
      omega
    have hsame : times n unit = n * unit := wrap64_eq_self_iff.2 ⟨hmin, hle⟩
    exact ⟨hsame ▸ hpos, hsame ▸ hle, hsame⟩

end Duration

/-! ### Timeouts -/

namespace Config

/-- **A timeout of a valid configuration is positive and exact as long as its nanoseconds fit into
64 bits**: up to 153722867 minutes and 9223372036 seconds, about 292 years.  Any larger number is
accepted all the same and comes to another duration. -/
theorem timeouts_exact_iff (c : Config) (hvalid : c.problems = []) :
    (c.git.commandTimeout.IsTimeout c.git.commandTimeoutMinutes Duration.minute ↔
      c.git.commandTimeoutMinutes ≤ 153722867) ∧
    (c.git.archiveTimeout.IsTimeout c.git.archiveTimeoutMinutes Duration.minute ↔
      c.git.archiveTimeoutMinutes ≤ 153722867) ∧
    (c.analyzer.deltaTimeout.IsTimeout c.analyzer.deltaTimeoutSeconds Duration.second ↔
      c.analyzer.deltaTimeoutSeconds ≤ 9223372036) ∧
    (c.analyzer.fullTimeout.IsTimeout c.analyzer.fullTimeoutSeconds Duration.second ↔
      c.analyzer.fullTimeoutSeconds ≤ 9223372036) := by
  have hc : c.Valid := problems_eq_nil_iff.1 hvalid
  have hminute : 0 < Duration.minute := by decide
  have hsecond : 0 < Duration.second := by decide
  exact ⟨Duration.isTimeout_times_iff hc.commandTimeout hminute,
    Duration.isTimeout_times_iff hc.archiveTimeout hminute,
    Duration.isTimeout_times_iff hc.deltaTimeout hsecond,
    Duration.isTimeout_times_iff hc.fullTimeout hsecond⟩

/-- A configuration with one framework and given timeouts. -/
def withTimeouts (minutes seconds : Int) : Config :=
  { default with
    frameworks := [(Text.ofString "demo",
      { repoUrl := Text.ofString "u", startDate := Text.ofString "2020-01-01"
        analyzer := Text.ofString "a.php", extensions := [Text.ofString ".php"] })]
    git := { default.git with commandTimeoutMinutes := minutes, archiveTimeoutMinutes := minutes }
    analyzer :=
      { default.analyzer with deltaTimeoutSeconds := seconds, fullTimeoutSeconds := seconds } }

/-- The longest timeouts that are exact. -/
theorem timeouts_exact_iff_longest :
    (withTimeouts 153722867 9223372036).problems = [] ∧
      (withTimeouts 153722867 9223372036).git.commandTimeout = 9223372020000000000 ∧
      (withTimeouts 153722867 9223372036).git.commandTimeout.IsTimeout 153722867
        Duration.minute := by
  have hvalid : (withTimeouts 153722867 9223372036).problems = [] := by decide +kernel
  exact ⟨hvalid, by decide,
    (timeouts_exact_iff (withTimeouts 153722867 9223372036) hvalid).1.2 (by decide)⟩

/-- One minute and one second more are accepted too, and all timeouts are negative. -/
theorem longTimeouts_negative :
    (withTimeouts 153722868 9223372037).problems = [] ∧
      (withTimeouts 153722868 9223372037).git.commandTimeout < 0 ∧
      (withTimeouts 153722868 9223372037).git.archiveTimeout < 0 ∧
      (withTimeouts 153722868 9223372037).analyzer.deltaTimeout < 0 ∧
      (withTimeouts 153722868 9223372037).analyzer.fullTimeout < 0 := by
  have hvalid : (withTimeouts 153722868 9223372037).problems = [] := by decide +kernel
  exact ⟨hvalid, by decide, by decide, by decide, by decide⟩

end Config

end MetricHistory
