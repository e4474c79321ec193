import HabitHive.Awards
import HabitHive.Countdown
import HabitHive.Delete
import HabitHive.Devices
import HabitHive.Durations
import HabitHive.Edits
import HabitHive.FailedCreate
import HabitHive.FailedReads
import HabitHive.Finished
import HabitHive.Kill
import HabitHive.Labels
import HabitHive.Launch
import HabitHive.Loadable
import HabitHive.LongPress
import HabitHive.Menu
import HabitHive.Mirror
import HabitHive.NewDay
import HabitHive.OtherTaps
import HabitHive.Pausing
import HabitHive.Pickers
import HabitHive.Refinement
import HabitHive.Reuse
import HabitHive.Rows
import HabitHive.Settle
import HabitHive.Streak
import HabitHive.Taps
import HabitHive.Targets
import HabitHive.Simulation
import HabitHive.Values
import HabitHive.Ranges
import HabitHive.Origins
import HabitHive.Counts
import HabitHive.ScreenFaults
import HabitHive.Model.Accounts
import HabitHive.Background
import HabitHive.Accounts
import HabitHive.Lineage
import HabitHive.SignedOut
import HabitHive.Lib.Pool
import HabitHive.Fleet
import HabitHive.Agreement
import HabitHive.Appearances
import HabitHive.ScreenCore
import HabitHive.SignIns
