import Checkedthreads.Pagetab
import Checkedthreads.AllocLists
import Checkedthreads.Grow
import Checkedthreads.GetPage
import Checkedthreads.Lifetime
import Checkedthreads.OwnerMap
import Checkedthreads.Footprint
import Checkedthreads.Command
import Checkedthreads.Monitor
import Checkedthreads.CmdFormat
import Checkedthreads.Races
import Checkedthreads.LastWriter
import Checkedthreads.Modify
import Checkedthreads.Writers
import Checkedthreads.Instrument
import Checkedthreads.Interleave
