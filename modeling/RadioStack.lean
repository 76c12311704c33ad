import RadioStack.Link.Robustness
import RadioStack.Ofh.BfpAvx2
import RadioStack.Ofh.BfpNeon
import RadioStack.Rlc.StatusFreshness
import RadioStack.Gtpu.NguReordering
import RadioStack.Pdcp.Keystream
import RadioStack.Mac.PduRxHandler
import RadioStack.F1u.DiscardTransfer
import RadioStack.Support.RefusedDispatch
import RadioStack.Security.Engine
import RadioStack.Mac.DlSchHistory
import RadioStack.CuCp.UpBookkeeping
import RadioStack.Support.ByteBufferRefinement
import RadioStack.Support.ByteBufferResize
import RadioStack.Phy.Segmentation
import RadioStack.Phy.TbsCalculator
import RadioStack.Ofh.BfpAvx512
import RadioStack.Ofh.PackingRoundTrip
import RadioStack.Ofh.BfpDecompress
import RadioStack.Rlc.StatusTrim
import RadioStack.Rlc.StatusExact
import RadioStack.Pdcp.Unauthenticated
import RadioStack.Pdcp.TxEviction
import RadioStack.Rlc.HeaderCodecs
import RadioStack.Ofh.SymbolBurst
import RadioStack.Rlc.PollThresholds
import RadioStack.Rlc.RetxBounds
import RadioStack.Rlc.SduTotals
import RadioStack.Rlc.UmDuplicates
import RadioStack.Rlc.UmReassemblyTimer
import RadioStack.Sched.SliceAccounting
