import Renterd.Autopilot.Migrations
import Renterd.Autopilot.RunningFlag
import Renterd.Stores.Tables
import Renterd.Stores.Contracts
import Renterd.Stores.Ancestors
import Renterd.Stores.Objects
import Renterd.Stores.Listing
import Renterd.Stores.ContractSets
import Renterd.Stores.Batches
import Renterd.Stores.Health
import Renterd.Stores.Slabs
import Renterd.Stores.Writes
import Renterd.Stores.ShardCounts
import Renterd.Stores.ReadBack
import Renterd.Stores.Convert
import Renterd.Stores.Cascade
import Renterd.Stores.Ledger
import Renterd.Stores.Integrity
import Renterd.Stores.Sectors
import Renterd.Stores.Retry
import Renterd.Stores.ObjectMap
import Renterd.Stores.Queries
import Renterd.Stores.GoodSectors
import Renterd.Worker.Dialer
import Renterd.Rhp.Stream
import Renterd.Rhp.Response
import Renterd.Rhp.Registry
