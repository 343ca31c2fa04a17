import GzPlugin.Forgetting
import GzPlugin.Discovery
import GzPlugin.Registration
import GzPlugin.Catalogue
import GzPlugin.Lifetime
import GzPlugin.FromThis
import GzPlugin.ValueSemantics
import GzPlugin.Expiry
import GzPlugin.Agreement
import GzPlugin.LoadFailure
import GzPlugin.Balance
import GzPlugin.Records
import GzPlugin.Specialized
import GzPlugin.LostProducts
import GzPlugin.Cleanup
import GzPlugin.Duality
import GzPlugin.Integrity
import GzPlugin.PluginLibrary
import GzPlugin.Moves
import GzPlugin.Teardown
import GzPlugin.HashOrder
import GzPlugin.Views
import GzPlugin.Factory
import GzPlugin.PluginInfo
import GzPlugin.FactoryMacros
import GzPlugin.Standing
import GzPlugin.Callable
import GzPlugin.Keys
