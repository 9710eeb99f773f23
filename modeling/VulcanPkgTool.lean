import VulcanPkgTool.Go
import VulcanPkgTool.Bitmap
import VulcanPkgTool.Bloom
import VulcanPkgTool.Stopper
import VulcanPkgTool.Sort
import VulcanPkgTool.ConsistentHash
import VulcanPkgTool.ConcurrentMap.Shards
import VulcanPkgTool.ConcurrentMap.Refinement
import VulcanPkgTool.ConcurrentMap.I64Map
import VulcanPkgTool.ConcurrentMap.StrMap
import VulcanPkgTool.Id
import VulcanPkgTool.IncrementId
import VulcanPkgTool.Aes
import VulcanPkgTool.CamelCase
import VulcanPkgTool.Time
import VulcanPkgTool.Net.Addr
import VulcanPkgTool.Net.IPv4
import VulcanPkgTool.Net.IPv6
import VulcanPkgTool.Net.HostPort
import VulcanPkgTool.Strings
import VulcanPkgTool.Ip
import VulcanPkgTool.Gcm
import VulcanPkgTool.Channel
import VulcanPkgTool.Compress
import VulcanPkgTool.Stopper.Lifecycle
import VulcanPkgTool.RoutineId
import VulcanPkgTool.Rand
