import Codelib.Hhash.DenseRun
import Codelib.Hhash.Process
import Codelib.Hhash.Interference
import Codelib.Mailthem.Deliver
import Codelib.Drplayer.ReadLoop
import Codelib.Clisrv.Answered
import Codelib.Pbar.Panics
import Codelib.Pbar.Atomic
import Codelib.Qsort.Sound
import Codelib.Qsort.Search
import Codelib.Qsort.Agree
import Codelib.ClRope.Print
import Codelib.ClCa.Audio
import Codelib.Renum.Decode
import Codelib.Ibtest.Connect
import Codelib.Ibtest.Sockets
import Codelib.Ibtest.Finishes
import Codelib.Ibtest.Follows
import Codelib.Ktoy.Concurrent
import Codelib.Ktoy.Module
import Codelib.Reorder.Progress
import Codelib.Reorder.Reports
import Codelib.Clj.Stable
import Codelib.Clj.Threads
import Codelib.Elisp.RemoveKeywordParams
import Codelib.Gnuplot.Plot
import Codelib.Sosper.Breakdown
import Codelib.Sosper.Rows
import Codelib.Vmem.Dumpbin
import Codelib.PickCodeblock.Whole
import Codelib.Daemonize.Daemonize
