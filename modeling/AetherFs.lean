import AetherFs.Lib.Bytes
import AetherFs.Lib.Crc
import AetherFs.Lib.Interval
import AetherFs.Lib.Layout
import AetherFs.Lib.Mask
import AetherFs.Lib.Run
import AetherFs.Lib.Stripe
import AetherFs.Lib.Machine
import AetherFs.Lib.Bitmap
import AetherFs.Lib.Search
import AetherFs.Lib.Chain
import AetherFs.Lib.Records
import AetherFs.Lib.Transfer
import AetherFs.Format
import AetherFs.Device
import AetherFs.Transfer
import AetherFs.Image.Basic
import AetherFs.Image.Single
import AetherFs.Image.Open
import AetherFs.Image.Validate
import AetherFs.Image.Boot
import AetherFs.Image.Volume
import AetherFs.Image.Coverage
import AetherFs.Image.Namespace
import AetherFs.Image.Directory
import AetherFs.Image.Files
import AetherFs.Image.Corruption
import AetherFs.Image.Placement
import AetherFs.Image.Write
import AetherFs.Mkfs.Init
import AetherFs.Mkfs.Run
import AetherFs.Mkfs.Refusal
import AetherFs.Mount
import AetherFs.Health
import AetherFs.Rebalance.Encode
import AetherFs.Rebalance.Run
import AetherFs.Rebalance.Compact
import AetherFs.Rebalance.Source
import AetherFs.Rebalance.Packed
import AetherFs.Rebalance.Fill
import AetherFs.Rebalance.Build
import AetherFs.Rebalance.Results
import AetherFs.Rebalance.Space
import AetherFs.Rebalance.Chain
import AetherFs.Rebalance.History
import AetherFs.Pool.Label
import AetherFs.Pool.Map
import AetherFs.Pool.Block
import AetherFs.Pool.Redundancy
import AetherFs.Pool.Failure
import AetherFs.Pool.Loss
import AetherFs.Pool.Uniform
import AetherFs.Pool.Assemble
import AetherFs.Pool.Descriptors
import AetherFs.Kernel.Crc
import AetherFs.Kernel.Layout
import AetherFs.Kernel.Checksum
import AetherFs.Kernel.Sync
import AetherFs.Kernel.Balloc
import AetherFs.Kernel.Trim
import AetherFs.Kernel.Cursor
import AetherFs.Kernel.Journal
import AetherFs.Kernel.Lane
import AetherFs.Kernel.Intents
import AetherFs.Kernel.Fates
import AetherFs.Kernel.Transaction
import AetherFs.Kernel.Log
import AetherFs.Kernel.Percpu
import AetherFs.Kernel.Snapshot
import AetherFs.Kernel.Btree
import AetherFs.Kernel.BtreeNode
import AetherFs.Kernel.Metadata
import AetherFs.Kernel.Dir
import AetherFs.Kernel.DirIndex
import AetherFs.Kernel.Readdir
import AetherFs.Kernel.DirRuns
import AetherFs.Kernel.Names
import AetherFs.Kernel.Inodes
import AetherFs.Kernel.Dedup
import AetherFs.Kernel.MetaDedup
import AetherFs.Kernel.Dense
import AetherFs.Kernel.Inline
import AetherFs.Kernel.Cdc
import AetherFs.Kernel.Policy
import AetherFs.Kernel.DataModes
import AetherFs.Kernel.Private
import AetherFs.Kernel.SelfHeal
