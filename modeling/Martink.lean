import Martink.Arch.Avr.GpioPrng
import Martink.Arch.Avr.TwiRead
import Martink.Arch.Avr.UartInit
import Martink.Arch.Avr.UartTx
import Martink.Arch.Stm32.PpmReconfigure
import Martink.Arch.Stm32.PwmFilter
import Martink.Arch.Stm32.PwmWidth
import Martink.Arch.Twi
import Martink.Arch.Uart
import Martink.Block.At24Eeprom
import Martink.Boards.Cc3dRead
import Martink.Boards.FlyskyPpm
import Martink.Boards.Multiwii
import Martink.Boards.ReadSensors
import Martink.Crypto.AesKeyschedule
import Martink.Crypto.Sha256
import Martink.Disp.Ili9340Pixels
import Martink.Disp.Ks0713Text
import Martink.Disp.Ssd1306
import Martink.Fs.CoffeeGc
import Martink.Fs.CoffeeRun
import Martink.Net.Enc28j60Recv
import Martink.Radio.Nrf24l01Runs
import Martink.Radio.Nrf24l01Scan
import Martink.Sensors.Bmp085
import Martink.Sensors.Dht
import Martink.Sensors.Ds18b20
import Martink.Tty.Vt100Colors
import Martink.Tty.Vt100Columns
import Martink.Tty.Vt100Erase
import Martink.Tty.Vt100Position
import Martink.Tty.Vt100Region
import Martink.Tty.Vt100Rows
import Martink.Tty.Vt100Saved
import Martink.Tty.Vt100Screen
import Martink.Tty.Vt100Tab
import Martink.Util.JsonText
import Martink.Util.JsonTokens
import Martink.Util.SerialDebuggerLines
