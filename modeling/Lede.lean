import Lede.Nand.Flash
import Lede.Bmt.Core
import Lede.Lib.StablePartition
import Lede.Lib.Bytes
import Lede.Bmt.Bbt
import Lede.Bmt.BbtTheorems
import Lede.Bmt.BbtRangeTheorems
import Lede.Bmt.V2
import Lede.Bmt.V2Theorems
import Lede.Bmt.V2RunTheorems
import Lede.Bmt.V2AttachTheorems
import Lede.Bmt.V2AccessTheorems
import Lede.Lib.Words
import Lede.Nmbm.Tables
import Lede.Nmbm.Io
import Lede.Nmbm.Update
import Lede.Nmbm.Attach
import Lede.Nmbm.ImageTheorems
import Lede.Nmbm.RegionTheorems
import Lede.Nmbm.CreateTheorems
import Lede.Nmbm.LoadTheorems
import Lede.Nmbm.ReloadTheorems
import Lede.Nmbm.HeaderTheorems
import Lede.Nmbm.Loops
import Lede.Nmbm.LoopTheorems
import Lede.Nmbm.Unmap
import Lede.Nmbm.UnmapTheorems
import Lede.RouterBoot.SoftConfig
import Lede.RouterBoot.SoftConfigTheorems
import Lede.RouterBoot.HardConfig
import Lede.RouterBoot.HardConfigTheorems
import Lede.Lib.Access
import Lede.Lib.BigEndian
import Lede.Lib.Buckets
import Lede.Lib.Links
import Lede.Lib.Checksum
import Lede.Map.Mapcalc
import Lede.Map.MapcalcTheorems
import Lede.Mtd.Write
import Lede.Mtd.WriteTheorems
import Lede.Mtd.WriteRunTheorems
import Lede.Mtd.PlacementTheorems
import Lede.Mtd.Fis
import Lede.Mtd.FisTableTheorems
import Lede.Mtd.FisTheorems
import Lede.FwSlot.Flash
import Lede.FwSlot.VerifyTheorems
import Lede.FwSlot.FlashTheorems
import Lede.FwSlot.CrashTheorems
import Lede.Nvram.Store
import Lede.Nvram.ImageTheorems
import Lede.Nvram.CommitTheorems
import Lede.Sfe.Packet
import Lede.Sfe.Table
import Lede.Sfe.Recv
import Lede.Sfe.Rule
import Lede.Sfe.Frame
import Lede.Sfe.Shape
import Lede.Sfe.ShapeTheorems
import Lede.Sfe.RunTheorems
import Lede.Sfe.StepTheorems
import Lede.Sfe.KeyTheorems
import Lede.Sfe.StatTheorems
import Lede.Sfe.ChecksumTheorems
import Lede.Sfe.WindowTheorems
import Lede.Sfe.PaddingTheorems
import Lede.Rtl8366.Vlan
import Lede.Rtl8366.VlanTheorems
import Lede.Otto.Family
import Lede.Otto.Lag
import Lede.Otto.LagTheorems
import Lede.Otto.Bridge
import Lede.Otto.BridgeTheorems
import Lede.Otto.Shaping
import Lede.Otto.ShapingTheorems
import Lede.Lib.BitField
import Lede.Lib.RefCount
import Lede.Lib.Runs
import Lede.Lib.Slots
import Lede.Lib.Loops
import Lede.Lib.Ternary
import Lede.Otto.L2Entry
import Lede.Otto.L2EntryTheorems
import Lede.Otto.L2Table
import Lede.Otto.L2TableTheorems
import Lede.Otto.NexthopTheorems
import Lede.Otto.FdbTheorems
import Lede.Otto.McGroupTheorems
import Lede.Otto.Pie
import Lede.Otto.PieTheorems
import Lede.Otto.FlowerTheorems
import Lede.Otto.VlanTable
import Lede.Otto.Mst
import Lede.Otto.MstTheorems
import Lede.Otto.MstStateTheorems
import Lede.FwSlot.LoadTheorems
import Lede.FwSlot.MtdVerify
import Lede.FwSlot.SelectTheorems
import Lede.Nvram.Access
import Lede.RouterBoot.TagChain
import Lede.RouterBoot.Rle
import Lede.Lib.Retry
import Lede.RouterBoot.Partition
import Lede.RouterBoot.PartitionTheorems
import Lede.RouterBoot.DynpartTheorems
import Lede.Map.PortTheorems
import Lede.Map.CopyTheorems
import Lede.Mtd.Dump
import Lede.Mtd.DumpTheorems
import Lede.Mtd.Crc
import Lede.Mtd.Trx
import Lede.Mtd.TrxTheorems
import Lede.Lib.Fields
import Lede.Mtd.Jffs2
import Lede.Mtd.Jffs2Node
import Lede.Mtd.Jffs2Theorems
import Lede.Sfe.OptionTheorems
import Lede.Lib.Decimal
import Lede.BaseFiles.Ipv4
import Lede.BaseFiles.Ipv4Theorems
import Lede.Kconfig.Kconfig
import Lede.Kconfig.KconfigTheorems
import Lede.Lib.Perl
import Lede.Metadata.Package
import Lede.Metadata.ClearTheorems
import Lede.Metadata.Version
import Lede.Metadata.VersionTheorems
import Lede.Metadata.Overrides
import Lede.Metadata.OverridesTheorems
import Lede.Metadata.Condition
import Lede.Metadata.Depends
import Lede.Metadata.ExpandTheorems
import Lede.Metadata.LineTheorems
import Lede.Metadata.DependsTheorems
import Lede.BaseFiles.IpcalcTheorems
import Lede.Otto.PolicyRules
import Lede.Otto.LagFdbTheorems
import Lede.Otto.L3RouteTheorems
import Lede.Otto.PieActionTheorems
import Lede.Otto.RouteRuleTheorems
import Lede.Otto.RouterMacTheorems
import Lede.Otto.EgressIntfTheorems
import Lede.Otto.Fib6Theorems
import Lede.Nmbm.WalkTheorems
import Lede.Mtd.Jffs2Scan
import Lede.Otto.HashRowTheorems
import Lede.Otto.Ageing
import Lede.MtdSplit.Mtd
import Lede.MtdSplit.Uimage
import Lede.MtdSplit.UimageTheorems
import Lede.MtdSplit.Fit
import Lede.MtdSplit.FitTheorems
import Lede.Tffs.Nand
import Lede.Tffs.SegmentTheorems
import Lede.Tffs.BoundsTheorems
import Lede.Tffs.ScanTheorems
import Lede.Tffs.LookupTheorems
import Lede.MtdSplit.BcmWfi
import Lede.MtdSplit.BcmWfiWalk
import Lede.MtdSplit.BcmWfiTheorems
import Lede.Lib.Moves
import Lede.Otto.Table
import Lede.Otto.Prefix930x
import Lede.Otto.PrefixRows
