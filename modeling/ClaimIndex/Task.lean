import ClaimIndex.Key
import ClaimIndex.Time

namespace ClaimIndex

inductive Task
  /-- Another rebuild; without a purge point its own start time is the purge point. -/
  | rebuild (purge : Option Instant)
  | refreshStatistics (groups : Std.ExtTreeSet GroupId)

def Task.name : Task → String
  | rebuild _ => "rebuild"
  | refreshStatistics _ => "refresh_group_stats"

end ClaimIndex
