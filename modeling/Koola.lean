import Koola.Maps.ReadErrors
import Koola.Maps.KernelMaps
import Koola.Hook.Targets
import Koola.Bus.TickPump
import Koola.Bus.LoneTick
import Koola.Config.Upgrade
import Koola.Panel.PanelState
import Koola.Inline.Refines
